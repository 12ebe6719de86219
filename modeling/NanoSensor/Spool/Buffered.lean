import NanoSensor.Spool.Queue

/-!
# The state file behind a buffer

`save_state` prints the cursor to a stream on `state.tmp`, looks at the stream, and renames the file
once the stream has gone out of scope. `SaveIo` lets the stream go bad before it is looked at. Here
the stream is what it is in the C++ library, a buffer: the line is in memory when the stream is
looked at, and reaches the file only as the stream is closed, by a destructor that tells nobody how
much of it was written.

So there are two ways for a call to end short of a whole `state.tmp`, and they differ in what
follows. A process that is killed does not get to the rename. A full disk does not stop it: the
rename publishes what there is. `state_complete_iff` says that this is the only way for the state
file to be anything but a line that some call printed, and `Complete.run` carries it over any
number of calls.
-/

namespace NanoSensor

open Bytes

/-- How `save_state` ends after the stream is closed. -/
inductive Publish
  /-- `rename` replaced the old state file. -/
  | renamed
  /-- `rename` failed; removing the old file first and renaming again worked. -/
  | replaced
  /-- Both renames failed; the flag says whether the old file went. -/
  | fails (removed : Bool) (reason : String)
  deriving DecidableEq, Repr

/-- The effects of that. -/
def Publish.steps : Publish → List DiskStep
  | .renamed => [.renameTmp]
  | .replaced => [.removeState, .renameTmp]
  | .fails removed _ => if removed then [.removeState] else []

/-- What `save_state` then returns. -/
def Publish.error : Publish → Option SpoolError
  | .renamed => none
  | .replaced => none
  | .fails _ reason => some (.cannotCommitState reason)

/-- A call of `save_state`: the numbers it prints, and how it goes on. -/
structure Saving where
  st : StateFile
  /-- The stream opens. -/
  opens : Bool
  /-- How many bytes of the line reach the file when the stream is closed. -/
  written : ℕ
  publish : Publish
  /-- How many effects the process lives to see. -/
  lives : ℕ
  deriving DecidableEq, Repr

namespace Saving

/-- The effects of a call that runs to its end: opening the stream truncates the file, and closing
it writes what can be written. -/
def allSteps (x : Saving) : List DiskStep :=
  if x.opens then .writeTmp [] :: .writeTmp ((stateLine x.st).take x.written) :: x.publish.steps
  else []

/-- The effects of a call. -/
def steps (x : Saving) : List DiskStep :=
  x.allSteps.take x.lives

/-- What the call returns, if it does. The stream is looked at before it is closed. -/
def error (x : Saving) : Option SpoolError :=
  if x.opens then x.publish.error else some .cannotWriteState

/-- The call lives to rename a line that was not written out. -/
def Truncates (x : Saving) : Prop :=
  .renameTmp ∈ x.steps ∧ x.written < (stateLine x.st).length

instance (x : Saving) : Decidable x.Truncates :=
  inferInstanceAs (Decidable (_ ∧ _))

end Saving

/-- `save_state` on a spool, with a buffered stream and a process that is not killed. -/
def Spool.saveBuffered (s : Spool) (opens : Bool) (written : ℕ) (publish : Publish) : Outcome :=
  let x : Saving := ⟨s.stateFile, opens, written, publish, 4⟩
  ⟨x.error, s.perform x.steps⟩

/-- The state file, if there is one, is a line printed for one of `states`. -/
def Complete (states : List StateFile) (d : Disk) : Prop :=
  ∀ text ∈ d.state, ∃ st ∈ states, text = stateLine st

/-! ### Lines and their beginnings -/

theorem stateLine_eq (st : StateFile) : ∃ front : Bytes, stateLine st = front ++ [0x0A] ∧
    (0x0A : UInt8) ∉ front := by
  have hdigits : ∀ n, (0x0A : UInt8) ∉ decimal n := fun n hn ↦
    absurd (isDigit_of_mem_decimal hn) (by decide)
  have hspace : (0x0A : UInt8) ∉ ofString " " := by decide
  refine ⟨_, congrArg (_ ++ ·) (show ofString "\n" = [0x0A] by decide), ?_⟩
  simp only [List.mem_append, hdigits, hspace, or_self, not_false_eq_true]

/-- The beginning of a line is not a line. -/
theorem take_stateLine_ne {st : StateFile} {n : ℕ} (hn : n < (stateLine st).length)
    (st' : StateFile) : (stateLine st).take n ≠ stateLine st' := by
  obtain ⟨front, hfront, hnot⟩ := stateLine_eq st
  obtain ⟨front', hfront', -⟩ := stateLine_eq st'
  rw [hfront, List.length_append, List.length_singleton] at hn
  rw [hfront, hfront', List.take_append_of_le_length (Nat.le_of_lt_succ hn)]
  intro heq
  refine hnot (List.mem_of_mem_take (i := n) ?_)
  rw [heq]
  exact List.mem_append_right _ (List.mem_singleton_self _)

/-! ### One call -/

namespace Saving

/-- **What a call does to the state file**: it puts there what was written, if it lives to rename
it, and otherwise leaves the file or removes it. -/
theorem state_run (x : Saving) (d : Disk) :
    (.renameTmp ∈ x.steps ∧ (d.run x.steps).state = some ((stateLine x.st).take x.written)) ∨
    (.renameTmp ∉ x.steps ∧ ((d.run x.steps).state = d.state ∨ (d.run x.steps).state = none)) := by
  obtain ⟨st, opens, written, publish, lives⟩ := x
  rcases opens
  · exact Or.inr ⟨by simp [steps, allSteps], Or.inl (by simp [steps, allSteps])⟩
  · rcases publish with - | - | ⟨- | -, reason⟩ <;> rcases lives with - | - | - | - | lives <;>
      simp [steps, allSteps, Publish.steps, Disk.step]

theorem complete_iff {earlier : List StateFile} {d : Disk} (h : Complete earlier d) (x : Saving) :
    Complete (earlier ++ [x.st]) (d.run x.steps) ↔ ¬ x.Truncates := by
  rcases x.state_run d with ⟨hrename, hstate⟩ | ⟨hnot, hstate⟩
  · simp only [Complete, hstate, Truncates, hrename, true_and, not_lt]
    constructor
    · intro hcomplete
      by_contra hlt
      obtain ⟨st, -, hline⟩ := hcomplete _ rfl
      exact take_stateLine_ne (not_le.1 hlt) st hline
    · intro hle text htext
      obtain rfl := Option.some.inj htext
      exact ⟨x.st, by simp, List.take_of_length_le hle⟩
  · refine iff_of_true (fun text htext ↦ ?_) fun htruncates ↦ hnot htruncates.1
    rcases hstate with hsame | hnone
    · obtain ⟨st, hst, hline⟩ := h text (hsame ▸ htext)
      exact ⟨st, List.mem_append_left _ hst, hline⟩
    · rw [hnone] at htext
      cases htext

end Saving

namespace Spool

/-- **When the state file stays complete.** If it was absent or a line that some earlier call of
`save_state` printed, it is absent or such a line after a call on any spool, whatever fails in it
and wherever it is killed, unless the call lives to rename a line that was not written out. -/
theorem state_complete_iff (s : Spool) (earlier : List StateFile) (h : Complete earlier s.disk)
    (opens : Bool) (written : ℕ) (publish : Publish) (lives : ℕ) :
    Complete (earlier ++ [s.stateFile])
        (s.disk.run (Saving.mk s.stateFile opens written publish lives).steps) ↔
      ¬ (Saving.mk s.stateFile opens written publish lives).Truncates :=
  Saving.complete_iff h _

/-- A process killed as it closes the stream has written two bytes, and not renamed them. -/
theorem state_complete_killed : ∃ s : Spool, s.Reachable ∧ s.pending = [[7]] ∧
    Complete [s.stateFile, s.stateFile]
      (s.disk.run (Saving.mk s.stateFile true 2 .renamed 2).steps) := by
  have hs := reachable_after ⟨1000, 100⟩ [.append ⟨true, none, [], .renamed⟩ [7]]
  refine ⟨_, hs, by decide +kernel, ?_⟩
  refine (state_complete_iff _ [_] ?_ true 2 .renamed 2).2 (by decide +kernel)
  intro text htext
  exact ⟨_, List.mem_singleton_self _, Option.some.inj htext.symm⟩

/-- A full disk: three bytes of the line reach the file, `save_state` returns `true`, and the next
process adopts the first digit of the offset. The record that was pending is not read again. -/
theorem state_truncated_by_full_disk : ∃ s : Spool, s.Reachable ∧ s.pending = [[8]] ∧
    (s.saveBuffered true 3 .renamed).error = none ∧
    (s.saveBuffered true 3 .renamed).spool.disk.state = some (ofString "1 1") ∧
    ¬ Complete [s.stateFile, s.stateFile] (s.saveBuffered true 3 .renamed).spool.disk ∧
    ((new (s.saveBuffered true 3 .renamed).spool.disk).openDir s.cfg).readOffset = 1 ∧
    ((new (s.saveBuffered true 3 .renamed).spool.disk).openDir s.cfg).pending = [] := by
  have hs := reachable_after ⟨1000, 100⟩
    [.append ⟨true, none, [], .renamed⟩ [7], .append ⟨true, none, [], .renamed⟩ [8],
      .commit ⟨[], .renamed⟩ 1]
  refine ⟨_, hs, by decide +kernel, by decide +kernel, by decide +kernel, ?_, by decide +kernel,
    by decide +kernel⟩
  intro hcomplete
  obtain ⟨st, hst, hline⟩ := hcomplete _ rfl
  exact take_stateLine_ne (by decide +kernel) st hline

/-- A line that is written out is saved as `saveState` says. -/
theorem saveBuffered_of_le (s : Spool) {written : ℕ}
    (h : (stateLine s.stateFile).length ≤ written) (publish : Publish) :
    ∃ io, (s.saveBuffered true written publish).error = (s.saveState io).error ∧
      (s.saveBuffered true written publish).spool.disk = (s.saveState io).spool.disk := by
  have hline : (stateLine s.stateFile).take written = stateLine s.stateFile :=
    List.take_of_length_le h
  rcases publish with - | - | ⟨removed, reason⟩
  · refine ⟨.renamed, rfl, ?_⟩
    simp [saveBuffered, saveState, perform, Saving.steps, Saving.allSteps, Publish.steps, hline,
      Disk.step]
  · refine ⟨.replaced, rfl, ?_⟩
    simp [saveBuffered, saveState, perform, Saving.steps, Saving.allSteps, Publish.steps, hline,
      Disk.step]
  · refine ⟨.renameFails removed reason, rfl, ?_⟩
    rcases removed <;> simp [saveBuffered, saveState, perform, Saving.steps, Saving.allSteps,
      Publish.steps, hline, Disk.step]

end Spool

/-! ### Any number of calls -/

/-- The directory after some calls. -/
def Disk.runSavings (d : Disk) (xs : List Saving) : Disk :=
  xs.foldl (fun d x ↦ d.run x.steps) d

/-- **A run of calls** none of which renames a line that was not written out leaves the state file
complete, wherever they were killed. -/
theorem Complete.run {earlier : List StateFile} {d : Disk} (h : Complete earlier d)
    {xs : List Saving} (hxs : ∀ x ∈ xs, ¬ x.Truncates) :
    Complete (earlier ++ xs.map Saving.st) (d.runSavings xs) := by
  induction xs generalizing earlier d with
  | nil => rwa [List.map_nil, List.append_nil]
  | cons x xs ih =>
    have hfirst := (Saving.complete_iff h x).2 (hxs x List.mem_cons_self)
    rw [List.map_cons, List.append_cons]
    exact ih hfirst fun y hy ↦ hxs y (List.mem_cons_of_mem x hy)

end NanoSensor
