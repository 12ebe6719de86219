import NanoSensor.Spool.Crash

/-!
# Killing the process again and again

`Crash` kills the process once, after a run in which everything went well. Here nothing has to have
gone well: the cursor may never have been saved, segments may be empty or end in a torn frame, and
the directory may come from a process that was killed before. `Works s segs c` is what is left of
`Tracks` then: the object represents its segments, and the directory would lead a new process to
the same cursor or to one before it. Files are removed here when the program removes them.

Opening a directory that a restart recovers from gives a spool that works (`Recovers.works`), and
every call, whole or cut off after any number of its effects, leaves a directory of that kind
again (`Works.append`, `Works.kill_append`, `Works.commit`, `Works.kill_commit`). `Accounted` is
what the four have to say about the records. The one thing `append` needs is that it does not write
behind a torn frame: `Spool.EndsWhole`, which the program could test and does not.
-/

namespace NanoSensor

open Bytes

/-! ### Records accounted for -/

/-- The queue `(segs', c')` has everything the queue `(segs, c)` with `new` behind it has, less at
most the first `n` records, and nothing else is stored there. -/
structure Accounted (segs : List Segment) (c : ℕ) (new : List Bytes) (n : ℕ) (segs' : List Segment)
    (c' : ℕ) : Prop where
  live : (live segs c ++ new).drop n <:+ live segs' c'
  stored : segs'.flatMap Segment.records <:+ segs.flatMap Segment.records ++ new

namespace Accounted

variable {segs segs' : List Segment} {c c' n : ℕ} {new : List Bytes}

/-- Moving the cursor back loses nothing. -/
theorem of_le (segs : List Segment) (h : c' ≤ c) : Accounted segs c [] 0 segs c' := by
  refine ⟨?_, ?_⟩
  · rw [List.append_nil, List.drop_zero]
    exact live_suffix_live h segs
  · rw [List.append_nil]

theorem refl (segs : List Segment) (c : ℕ) : Accounted segs c [] 0 segs c :=
  of_le segs (le_refl c)

/-- A record that left the queue was among the first `n`. -/
theorem kept (h : Accounted segs c new n segs' c') {r : Bytes}
    (hr : r ∈ NanoSensor.live segs c ++ new) :
    r ∈ (NanoSensor.live segs c ++ new).take n ∨ r ∈ NanoSensor.live segs' c' := by
  rw [← List.take_append_drop n (NanoSensor.live segs c ++ new)] at hr
  exact (List.mem_append.1 hr).imp_right fun hdrop ↦ h.live.subset hdrop

/-- A queue that got no record. -/
theorem of_suffix (hlive : (NanoSensor.live segs c).drop n <:+ NanoSensor.live segs' c')
    (hsegs : segs' <:+ segs) : Accounted segs c [] n segs' c' := by
  refine ⟨?_, ?_⟩
  · rwa [List.append_nil]
  · rw [List.append_nil]
    exact hsegs.flatMap _

end Accounted

/-! ### Spools at work -/

/-- The object works on `segs` from the cursor `c` on, and its directory recovers. -/
structure Works (s : Spool) (segs : List Segment) (c : ℕ) : Prop where
  represents : ∃ lows, Represents s 0 lows segs c
  recovers : Recovers s.disk segs c
  isOpen : s.isOpen = true

/-- What can be read of the segment `append` writes to is all of it. -/
def Spool.EndsWhole (s : Spool) : Prop :=
  let file := (s.disk.seg s.active).getD []
  (readMany readFrame ⊤ file.length file []).1.flatMap frame = file

instance (s : Spool) : Decidable s.EndsWhole :=
  inferInstanceAs (Decidable (_ = _))

/-- A segment whose records are all of it has no torn frame. -/
theorem Segment.tail_eq_nil_of_readMany (g : Segment)
    (h : (readMany readFrame ⊤ g.bytes.length g.bytes []).1.flatMap frame = g.bytes) :
    g.tail = [] := by
  have hnil : (([] : List Bytes).length : ℕ∞) ≤ ⊤ := le_top
  have hread := g.readMany_drop_offset hnil (Nat.zero_le _)
  rw [Segment.offset_zero, List.drop_zero, List.drop_zero, List.nil_append] at hread
  rw [hread, takeUpTo_top, Segment.bytes] at h
  exact List.self_eq_append_right.1 h

namespace Recovers

variable {d d' : Disk} {segs ext : List Segment} {c : ℕ}

/-- **A new process** takes over at the cursor or before it. -/
theorem works (h : Recovers d segs c) (cfg : Config) :
    ∃ c' ≤ c, Works ((Spool.new d).openDir cfg) segs c' := by
  obtain ⟨hd, c', hle, hst⟩ := h
  obtain ⟨-, hopen, hdisk, -⟩ := (Spool.new d).openDir_keeps cfg
  obtain ⟨lows, -, hrep⟩ := Spool.openDir_represents (o := Spool.new d) hd hst cfg
  refine ⟨c', hle, ⟨lows, hrep⟩, ?_, hopen⟩
  rw [hdisk]
  exact ⟨hd, c', le_refl _, hst⟩

/-- Writing behind everything else. -/
theorem extend (h : Recovers d segs c) {recs : List Bytes} {tail : Bytes}
    (hext : Extends segs ext recs tail) (hd' : DiskHolds d' 0 ext) (hstate : d'.state = d.state) :
    Recovers d' ext c := by
  obtain ⟨-, c', hle, hst⟩ := h
  refine ⟨hd', c', hle, ?_⟩
  rw [StateOnDisk, Disk.savedState, hstate]
  refine hst.imp_right ?_
  rintro ⟨st, hsome, hcur⟩
  exact ⟨st, hsome, hext.stateCursor hd' hcur⟩

end Recovers

theorem Disk.state_run_writeSteps (s : Spool) (bs : Bytes) :
    (s.disk.run (s.writeSteps bs)).state = s.disk.state := by
  rw [Spool.writeSteps, Disk.state_run_write]

namespace Works

variable {s : Spool} {segs : List Segment} {c : ℕ}

theorem pending_eq (h : Works s segs c) : s.pending = live segs c := by
  obtain ⟨lows, hrep⟩ := h.represents
  exact hrep.pending_eq

theorem canAppend (h : Works s segs c) (hactive : s.active ≠ 0) (hwhole : s.EndsWhole) :
    Represents.CanAppend s segs := by
  obtain ⟨lows, hrep⟩ := h.represents
  have hrep₀ : Represents { s with journal := [] } 0 lows segs c :=
    hrep.congr rfl rfl rfl fun _ ↦ rfl
  rcases hrep₀.selectActive_cases hactive with
    ⟨lows', active, -, -, -, -, -, -, -, -, hfull⟩ | ⟨init, g, rfl, hsel, -⟩
  · exact fun g hg ↦ Or.inr (hfull g hg)
  · intro g' hg'
    obtain rfl : g = g' := by simpa using hg'
    have hlast : s.active = g.id := congrArg Prod.fst hsel
    have hfile := hrep.holds.file g (by simp)
    rw [Spool.EndsWhole, hlast, hfile] at hwhole
    exact Or.inl (g.tail_eq_nil_of_readMany hwhole)

/-! ### Appending -/

/-- The bytes of whole frames and a torn one written to the active segment. -/
theorem written (h : Works s segs c) (hactive : s.active ≠ 0)
    (hcan : Represents.CanAppend s segs) {recs : List Bytes} {tail : Bytes}
    (hrecs : ∀ p ∈ recs, PayloadFits p) (htail : IsTorn frame PayloadFits tail) :
    ∃ ext, Works (s.prepared.perform (s.writeSteps (recs.flatMap frame ++ tail))) ext c ∧
      live ext c = live segs c ++ recs ∧
      ext.flatMap Segment.records = segs.flatMap Segment.records ++ recs := by
  obtain ⟨lows, hrep⟩ := h.represents
  obtain ⟨lows', ext, hext, -, hrep'⟩ := hrep.prepared hactive hcan hrecs htail
  have hstate : (s.prepared.perform (s.writeSteps (recs.flatMap frame ++ tail))).disk.state =
      s.disk.state := by
    rw [Spool.perform, s.prepared_memory]
    exact Disk.state_run_writeSteps s _
  have hopen : (s.prepared.perform (s.writeSteps (recs.flatMap frame ++ tail))).isOpen = true := by
    rw [Spool.perform, s.prepared_memory]
    exact h.isOpen
  exact ⟨ext, ⟨⟨lows', hrep'⟩, h.recovers.extend hext hrep'.holds hstate, hopen⟩,
    hext.live_eq hrep.cursorIn hrep.consumed_of_nil, hext.flatMap_records⟩

/-- **A write of `n` bytes of a frame**: the record is there when all of its bytes are. -/
theorem torn (h : Works s segs c) (hactive : s.active ≠ 0) (hcan : Represents.CanAppend s segs)
    {payload : Bytes} (hfit : PayloadFits payload) (n : ℕ) :
    ∃ ext new, Works (s.torn payload n) ext c ∧ Accounted segs c new 0 ext c ∧
      (new = [] ∨ new = [payload]) := by
  have haccounted : ∀ {ext : List Segment} {recs : List Bytes}, live ext c = live segs c ++ recs →
      ext.flatMap Segment.records = segs.flatMap Segment.records ++ recs →
      Accounted segs c recs 0 ext c := fun hlive hstored ↦
    ⟨hlive ▸ List.suffix_refl _, hstored ▸ List.suffix_refl _⟩
  rcases Nat.lt_or_ge n (frame payload).length with hn | hn
  · obtain ⟨ext, hworks, hlive, hstored⟩ :=
      h.written hactive hcan (List.forall_mem_nil PayloadFits) (isTorn_take_frame hfit hn)
    exact ⟨ext, [], hworks, haccounted hlive hstored, Or.inl rfl⟩
  · have hfits : ∀ p ∈ [payload], PayloadFits p := fun p hp ↦ List.mem_singleton.1 hp ▸ hfit
    obtain ⟨ext, hworks, hlive, hstored⟩ :=
      h.written hactive hcan hfits (isTorn_nil frame PayloadFits)
    rw [List.flatMap_singleton, List.append_nil] at hworks
    rw [Spool.torn, List.take_of_length_le hn]
    exact ⟨ext, [payload], hworks, haccounted hlive hstored, Or.inr rfl⟩

/-- How many records were counted as dropped once `m` segments were deleted behind a record. -/
def droppedAfter (s : Spool) (payload : Bytes) (m : ℕ) : ℕ :=
  ((s.recorded payload).evictLoop [] m).stats.dropped - s.stats.dropped

/-- **The record written and `m` victims deleted.** -/
theorem evicting (h : Works s segs c) (hactive : s.active ≠ 0)
    (hcan : Represents.CanAppend s segs) {payload : Bytes} (hfit : PayloadFits payload) (m : ℕ) :
    ∃ segs' c', Works ((s.recorded payload).evictLoop [] m) segs' c' ∧
      Accounted segs c [payload] (droppedAfter s payload m) segs' c' := by
  obtain ⟨lows, hrep⟩ := h.represents
  obtain ⟨lows₁, ext, hext, hrep₁⟩ := hrep.recorded hactive hcan hfit
  obtain ⟨-, hopen₁, -, -, hdrop₁, hdisk₁⟩ := s.recorded_memory payload
  have hrecovers : Recovers (s.recorded payload).disk ext c := by
    refine h.recovers.extend hext hrep₁.holds ?_
    rw [hdisk₁]
    exact Disk.state_run_writeSteps s _
  obtain ⟨low', lows', segs', c', hlow, hrep', htrim, hsum⟩ := hrep₁.evictLoop [] m
  obtain rfl := hlow rfl
  obtain ⟨victims, hev⟩ := Spool.evictLoop_evicted [] m (s.recorded payload)
  have hstate : ((s.recorded payload).evictLoop [] m).disk.state =
      (s.recorded payload).disk.state := by
    rw [hev.disk]
    exact Disk.state_run_removals _ _ _
  have hne : ext ≠ [] := by
    obtain ⟨init, last, rfl, -⟩ := hext
    simp
  have hopen : ((s.recorded payload).evictLoop [] m).isOpen = true :=
    hev.isOpen.trans (hopen₁.trans h.isOpen)
  refine ⟨segs', c', ⟨⟨lows', hrep'⟩, hrecovers.trimmed hrep'.holds hstate hne htrim, hopen⟩, ?_⟩
  -- the loop counted what it cut off the front
  have hlive := hext.live_eq hrep.cursorIn hrep.consumed_of_nil
  have hle := htrim.live.length_le
  have hcut := List.suffix_iff_eq_drop.1 htrim.live
  rw [hdrop₁] at hsum
  rw [show (live ext c).length - (live segs' c').length = droppedAfter s payload m by
    rw [droppedAfter]; omega, hlive] at hcut
  refine ⟨hcut ▸ List.suffix_refl _, ?_⟩
  rw [← hext.flatMap_records]
  exact htrim.suffix.flatMap _

/-- Saving the cursor, with any outcome. -/
theorem saveState (h : Works s segs c) (io : SaveIo) : Works (s.saveState io).spool segs c := by
  obtain ⟨lows, hrep⟩ := h.represents
  refine ⟨⟨lows, hrep.saveState io⟩, ?_, ?_⟩
  · have hall := h.recovers.save hrep io (s.saveSteps io).length
    rw [List.take_length] at hall
    rw [s.saveState_spool]
    exact hall
  · rw [s.saveState_memory]
    exact h.isOpen

/-- The object between two calls has no effects behind it. -/
theorem journal (h : Works s segs c) (steps : List DiskStep) :
    Works { s with journal := steps } segs c := by
  obtain ⟨lows, hrep⟩ := h.represents
  exact ⟨⟨lows, hrep.congr rfl rfl rfl fun _ ↦ rfl⟩, h.recovers, h.isOpen⟩

end Works

/-- The records an `append` has evicted by the time `steps` of its effects have happened. -/
def Spool.evictedBy (s : Spool) (payload : Bytes) (steps : List DiskStep) : List Bytes :=
  (s.pending ++ [payload]).take (Works.droppedAfter s payload (steps.countP DiskStep.isDeletion))

namespace Works

variable {s : Spool} {segs : List Segment} {c : ℕ}

/-- What `append` has to say about the records, when it gave the queue `new` and `steps` of its
effects happened: what left the queue was evicted. -/
structure Appended (s : Spool) (segs : List Segment) (c : ℕ) (payload : Bytes)
    (steps : List DiskStep) (new : List Bytes) (segs' : List Segment) (c' : ℕ) : Prop where
  new_cases : new = [] ∨ new = [payload]
  accounted : ∃ n, Accounted segs c new n segs' c' ∧
    s.evictedBy payload steps = (live segs c ++ new).take n

/-- Before the first deletion nothing is evicted. -/
theorem Appended.of_no_deletion {payload : Bytes} {steps : List DiskStep} {new : List Bytes}
    {segs' : List Segment} {c' : ℕ} (hsteps : steps.countP DiskStep.isDeletion = 0)
    (h : Accounted segs c new 0 segs' c') (hnew : new = [] ∨ new = [payload]) :
    Appended s segs c payload steps new segs' c' := by
  refine ⟨hnew, 0, h, ?_⟩
  rw [Spool.evictedBy, hsteps, droppedAfter, Spool.evictLoop, (s.recorded_memory payload).2.2.2.2.1,
    Nat.sub_self, List.take_zero, List.take_zero]

/-- With `m` deletions what is evicted is what the loop counted. -/
theorem Appended.of_deletions (hworks : Works s segs c) {payload : Bytes} {steps : List DiskStep}
    {m : ℕ} {segs' : List Segment} {c' : ℕ} (hsteps : steps.countP DiskStep.isDeletion = m)
    (h : Accounted segs c [payload] (droppedAfter s payload m) segs' c') :
    Appended s segs c payload steps [payload] segs' c' := by
  refine ⟨Or.inr rfl, _, h, ?_⟩
  rw [Spool.evictedBy, hworks.pending_eq, hsteps]

/-- How far an `append` gets whose segment opens. -/
theorem append_cases (s : Spool) {io : AppendIo} (hopens : io.opens = true) (payload : Bytes) :
    (∃ e, s.append io payload = ⟨some e, { s with journal := [] }⟩) ∨
      PayloadFits payload ∧
        ((∃ n, s.append io payload = ⟨some .appendFailed, s.torn payload n⟩) ∨
          s.append io payload =
            ((s.recorded payload).enforceBounds io.kept).saveState io.save) := by
  rcases s.append_cases io payload with h | ⟨hopen, hfit, -⟩
  · exact Or.inl h
  · refine Or.inr ⟨hfit, ?_⟩
    rw [Spool.append_body hopen hfit, if_neg (by simp [hopens])]
    rcases io.written with - | n
    · exact Or.inr rfl
    · exact Or.inl ⟨n, rfl⟩

theorem journal_torn (s : Spool) (payload : Bytes) (n : ℕ) :
    (s.torn payload n).journal = (s.writeSteps (frame payload)).take (n + 1) := by
  rw [Spool.torn_memory, Spool.writeSteps, Spool.writeSteps, List.take_succ_cons, List.map_take]

/-- **`append`, whatever comes of it.** A record it returned `true` for is in the queue. -/
theorem append (h : Works s segs c) (hactive : s.active ≠ 0) (hwhole : s.EndsWhole) {io : AppendIo}
    (hopens : io.opens = true) (hkept : io.kept = []) (payload : Bytes) :
    ∃ segs' c' new, Works (s.append io payload).spool segs' c' ∧
      Appended s segs c payload (s.append io payload).spool.journal new segs' c' ∧
      ((s.append io payload).error = none → new = [payload]) := by
  have hcan := h.canAppend hactive hwhole
  rcases append_cases s hopens payload with ⟨e, heq⟩ | ⟨hfit, ⟨n, heq⟩ | heq⟩
  · rw [heq]
    exact ⟨segs, c, [], h.journal [], .of_no_deletion rfl (.refl segs c) (Or.inl rfl),
      fun hok ↦ by cases hok⟩
  · obtain ⟨ext, new, hworks, haccounted, hnew⟩ := h.torn hactive hcan hfit n
    have hcount : (s.torn payload n).journal.countP DiskStep.isDeletion = 0 := by
      rw [journal_torn]
      exact countP_take_of_forall (isDeletion_writeSteps s _) _
    rw [heq]
    exact ⟨ext, c, new, hworks, .of_no_deletion hcount haccounted hnew, fun hok ↦ by cases hok⟩
  · obtain ⟨victims, hlast, -, hjournal⟩ := Spool.append_journal heq
    rw [hkept] at hlast hjournal heq
    obtain ⟨segs', c', hworks, haccounted⟩ := h.evicting hactive hcan hfit victims.length
    have hcount : (s.append io payload).spool.journal.countP DiskStep.isDeletion =
        victims.length := by
      rw [hjournal, List.countP_append, List.countP_append, countP_removals,
        List.countP_eq_zero.2 (isDeletion_writeSteps s _),
        List.countP_eq_zero.2 (isDeletion_saveSteps _ _), Nat.zero_add, Nat.add_zero]
    refine ⟨segs', c', [payload], ?_, .of_deletions h hcount haccounted, fun _ ↦ rfl⟩
    rw [heq, hlast]
    exact hworks.saveState io.save

/-- The directory recovers after the effects `steps` of an `append`, with every record accounted
for. -/
def Survives (s : Spool) (segs : List Segment) (c : ℕ) (payload : Bytes) (steps : List DiskStep) :
    Prop :=
  ∃ segs' c' new, Recovers (s.disk.run steps) segs' c' ∧
    Appended s segs c payload steps new segs' c'

theorem survives_nil (h : Works s segs c) (payload : Bytes) : Survives s segs c payload [] :=
  ⟨segs, c, [], h.recovers, .of_no_deletion rfl (.refl segs c) (Or.inl rfl)⟩

/-- Killed while the frame is written. -/
theorem survives_write (h : Works s segs c) (hactive : s.active ≠ 0)
    (hcan : Represents.CanAppend s segs) {payload : Bytes} (hfit : PayloadFits payload) (k : ℕ) :
    Survives s segs c payload ((s.writeSteps (frame payload)).take k) := by
  cases k with
  | zero => exact h.survives_nil payload
  | succ n =>
    obtain ⟨ext, new, hworks, haccounted, hnew⟩ := h.torn hactive hcan hfit n
    have hdisk : (s.torn payload n).disk =
        s.disk.run ((s.writeSteps (frame payload)).take (n + 1)) := by
      rw [← journal_torn, Spool.torn_memory]
    refine ⟨ext, c, new, hdisk ▸ hworks.recovers, .of_no_deletion ?_ haccounted hnew⟩
    exact countP_take_of_forall (isDeletion_writeSteps s _) _

/-- Killed between two deletions, or while the cursor is saved behind the last. -/
theorem survives_evict (h : Works s segs c) (hactive : s.active ≠ 0)
    (hcan : Represents.CanAppend s segs) {payload : Bytes} (hfit : PayloadFits payload)
    {victims : List ℕ} {m : ℕ}
    (hev : (s.recorded payload).Evicted [] ((s.recorded payload).evictLoop [] m) victims)
    (hm : victims.length = m) (io : SaveIo) (k : ℕ) :
    Survives s segs c payload (s.writeSteps (frame payload) ++ (removals [] victims ++
      (((s.recorded payload).evictLoop [] m).saveSteps io).take k)) := by
  obtain ⟨segs', c', hworks, haccounted⟩ := h.evicting hactive hcan hfit m
  obtain ⟨lows, hrep⟩ := hworks.represents
  refine ⟨segs', c', [payload], ?_, .of_deletions h ?_ haccounted⟩
  · rw [Disk.run_append, Disk.run_append, ← (s.recorded_memory payload).2.2.2.2.2, ← hev.disk]
    exact hworks.recovers.save hrep io k
  · rw [List.countP_append, List.countP_append, countP_removals,
      List.countP_eq_zero.2 (isDeletion_writeSteps s _),
      countP_take_of_forall (isDeletion_saveSteps _ _), Nat.zero_add, Nat.add_zero, hm]

/-- **`append`, killed after `k` effects.** -/
theorem kill_append (h : Works s segs c) (hactive : s.active ≠ 0) (hwhole : s.EndsWhole)
    {io : AppendIo} (hkept : io.kept = []) (payload : Bytes) (k : ℕ) :
    Survives s segs c payload ((s.append io payload).spool.journal.take k) := by
  have hcan := h.canAppend hactive hwhole
  rcases s.append_cases io payload with
    ⟨e, heq⟩ | ⟨-, hfit, ⟨e, heq⟩ | ⟨n, -, heq⟩ | heq⟩
  · rw [heq, List.take_nil]
    exact h.survives_nil payload
  · rw [heq, s.prepared_memory, List.take_nil]
    exact h.survives_nil payload
  · have hjournal : (s.append io payload).spool.journal =
        (s.writeSteps (frame payload)).take (n + 1) := by
      rw [heq]
      exact journal_torn s payload n
    rw [hjournal, List.take_take]
    exact h.survives_write hactive hcan hfit _
  · obtain ⟨victims, hlast, hcut, hjournal⟩ := Spool.append_journal heq
    rw [hkept] at hlast hcut hjournal
    rw [hjournal]
    rcases Nat.lt_or_ge (s.writeSteps (frame payload)).length k with hk | hk
    · -- the frame is written; `m` more effects happened
      obtain ⟨m, rfl⟩ := Nat.exists_eq_add_of_le hk.le
      rw [List.take_length_add_append]
      rcases Nat.lt_or_ge (removals [] victims).length m with hall | hpart
      · obtain ⟨k', rfl⟩ := Nat.exists_eq_add_of_le hall.le
        have hev := hcut victims.length (le_refl _)
        rw [List.take_length] at hev
        rw [List.take_length_add_append, hlast]
        exact h.survives_evict hactive hcan hfit hev rfl io.save k'
      · have hmv : m ≤ victims.length := by rwa [length_removals] at hpart
        have hsteps := h.survives_evict hactive hcan hfit (hcut m hmv)
          (by rw [List.length_take, Nat.min_eq_left hmv]) io.save 0
        rw [List.take_zero, List.append_nil, ← take_removals] at hsteps
        rw [List.take_append_of_le_length hpart]
        exact hsteps
    · rw [List.take_append_of_le_length hk]
      exact h.survives_write hactive hcan hfit k

/-! ### Committing -/

/-- A walk over `count` slots takes at most `count` records off the front of the queue. -/
theorem drop_suffix_release (hc : SegQueue.CursorIn Segment.slots segs c) (count : ℕ) :
    (live segs c).drop count <:+ live (SegQueue.release Segment.slots segs c count).segs
      (SegQueue.release Segment.slots segs c count).consumed := by
  obtain ⟨j, hj, -, hlive⟩ :=
    exists_live_drop segs c (SegQueue.release Segment.slots segs c count).count
  have hle := hj.trans (SegQueue.count_release_le Segment.slots segs c count)
  rw [show live (SegQueue.release Segment.slots segs c count).segs
      (SegQueue.release Segment.slots segs c count).consumed = (live segs c).drop j by
    rw [live, SegQueue.unreleased_release _ hc, hlive],
    ← Nat.add_sub_cancel' hle, ← List.drop_drop]
  exact List.drop_suffix _ _

/-- The segment loop of `commit`, killed after its first `k` deletions. -/
theorem kill_removals (h : Works s segs c) {count : ℕ} {gone : List Segment}
    (hgone : segs = gone ++ (SegQueue.release Segment.slots segs c count).segs) (k : ℕ) :
    ∃ segs' c', Recovers (s.disk.run (removals [] ((gone.take k).map Segment.id))) segs' c' ∧
      Accounted segs c [] count segs' c' := by
  obtain ⟨lows, hrep⟩ := h.represents
  have hfinal := drop_suffix_release hrep.cursorIn count
  have hne : segs ≠ [] → (SegQueue.release Segment.slots segs c count).segs ≠ [] :=
    fun hsegs ↦ SegQueue.release_segs_ne_nil Segment.slots hsegs c count
  set w := SegQueue.release Segment.slots segs c count
  have hsplit : segs = gone.take k ++ (gone.drop k ++ w.segs) := by
    rw [← List.append_assoc, List.take_append_drop]
    exact hgone
  have hrest : segs ≠ [] → gone.drop k ++ w.segs ≠ [] := fun hsegs ↦
    List.append_ne_nil_of_right_ne_nil _ (hne hsegs)
  rcases h.recovers.drop_front hsplit hrest with ⟨hnil, hrecovers⟩ | hrecovers
  · rw [hnil, List.nil_append] at hsplit
    rw [← hsplit] at hrecovers
    exact ⟨segs, c, hrecovers, .of_suffix (List.drop_suffix _ _) (List.suffix_refl _)⟩
  · refine ⟨_, 0, hrecovers, .of_suffix ?_ ⟨_, hsplit.symm⟩⟩
    refine (hfinal.trans (live_suffix_live (Nat.zero_le _) w.segs)).trans ?_
    rw [live_zero, live_zero, List.flatMap_append]
    exact List.suffix_append _ _

/-- The segment loop of `commit` as a whole. -/
theorem commitLoop (h : Works s segs c) (count : ℕ) :
    ∃ gone, Spool.Walked [] { s with journal := [] }
        (Spool.commitLoop { s with journal := [] } [] (s.segments.length + 1) count)
        (SegQueue.release Segment.slots segs c count).count gone ∧
      segs = gone ++ (SegQueue.release Segment.slots segs c count).segs ∧
      Works (Spool.commitLoop { s with journal := [] } [] (s.segments.length + 1) count)
        (SegQueue.release Segment.slots segs c count).segs
        (SegQueue.release Segment.slots segs c count).consumed ∧
      Accounted segs c [] count (SegQueue.release Segment.slots segs c count).segs
        (SegQueue.release Segment.slots segs c count).consumed := by
  obtain ⟨lows, hrep⟩ := (h.journal []).represents
  obtain ⟨low', hlow, hloop, gone, hgone, hwalk⟩ := hrep.commitLoop [] (Nat.lt_succ_self _) count
  obtain rfl := hlow rfl
  have hfinal := drop_suffix_release hrep.cursorIn count
  refine ⟨gone, hwalk, hgone, ⟨⟨lows, hloop⟩, ?_, hwalk.isOpen.trans h.isOpen⟩,
    .of_suffix hfinal ⟨gone, hgone.symm⟩⟩
  rw [hwalk.disk]
  rcases h.recovers.drop_front hgone fun hsegs ↦ SegQueue.release_segs_ne_nil _ hsegs c count with
    ⟨hnil, hrecovers⟩ | hrecovers
  · rw [hnil, List.nil_append] at hgone
    exact hrecovers.mono (SegQueue.le_consumed_of_segs_eq Segment.slots hgone.symm)
  · exact hrecovers.mono (Nat.zero_le _)

/-- **`commit`, whatever comes of saving the cursor**: no more than the first `count` records are
gone. -/
theorem commit (h : Works s segs c) {io : CommitIo} (hkept : io.kept = []) (count : ℕ) :
    ∃ segs' c', Works (s.commit io count).spool segs' c' ∧
      Accounted segs c [] count segs' c' := by
  rcases Nat.eq_zero_or_pos count with rfl | hpos
  · rw [Spool.commit_zero h.isOpen]
    exact ⟨segs, c, h.journal [], .of_suffix (List.drop_suffix _ _) (List.suffix_refl _)⟩
  · obtain ⟨gone, -, -, hworks, haccounted⟩ := h.commitLoop count
    rw [Spool.commit_of_pos h.isOpen hpos, hkept]
    exact ⟨_, _, hworks.saveState io.save, haccounted⟩

/-- **`commit`, killed after `k` effects.** -/
theorem kill_commit (h : Works s segs c) {io : CommitIo} (hkept : io.kept = []) (count k : ℕ) :
    ∃ segs' c', Recovers (s.disk.run ((s.commit io count).spool.journal.take k)) segs' c' ∧
      Accounted segs c [] count segs' c' := by
  rcases Nat.eq_zero_or_pos count with rfl | hpos
  · rw [Spool.commit_zero h.isOpen, List.take_nil]
    exact ⟨segs, c, h.recovers, .of_suffix (List.drop_suffix _ _) (List.suffix_refl _)⟩
  · obtain ⟨gone, hwalk, hgone, hworks, haccounted⟩ := h.commitLoop count
    have hjournal := hwalk.journal
    rw [List.nil_append] at hjournal
    rw [Spool.commit_of_pos h.isOpen hpos, hkept, Spool.saveState_spool]
    dsimp only [Spool.perform]
    rw [hjournal]
    rcases Nat.lt_or_ge (removals [] (gone.map Segment.id)).length k with hall | hpart
    · -- all used-up segments are gone and the cursor is being saved
      obtain ⟨k', rfl⟩ := Nat.exists_eq_add_of_le hall.le
      obtain ⟨lows, hrep⟩ := hworks.represents
      rw [List.take_length_add_append, Disk.run_append,
        ← show _ = s.disk.run (removals [] (gone.map Segment.id)) from hwalk.disk]
      exact ⟨_, _, hworks.recovers.save hrep io.save k', haccounted⟩
    · rw [List.take_append_of_le_length hpart, take_removals, ← List.map_take]
      exact h.kill_removals hgone k

end Works

end NanoSensor
