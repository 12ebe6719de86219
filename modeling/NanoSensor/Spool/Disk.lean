import Mathlib.Data.List.AList
import NanoSensor.Foundation.Numerals

/-!
# The spool directory

A directory of append-only segment files plus one small state file, and what `src/spool.cpp` does
to it, one effect at a time:

```
seg-00000001.log   records, oldest segment first
seg-00000002.log
state              read cursor + counters
state.tmp          the next state file, while it is being written
```

`Disk` is the contents and `DiskStep` one effect. An operation of the spool is a list of steps; the
disk a killed process leaves behind is the disk after a prefix of that list, which is why segment
bytes arrive one by one and the state file is replaced in steps of its own.

Segment files are kept by id, and the id reaches the rest of the program only through the file
name: `zeroPad` prints it, `segmentId?` is what `scan_segments` reads back, and
`segmentId?_zeroPad` connects the two. Likewise the cursor survives a restart only as text:
`stateLine` prints it, `readState` is the chain of `operator>>` in `load_state`, and
`readState_stateLine` is the round trip.

Ids, offsets and counters are 64-bit in the source. Here they are natural numbers, and the bound
stands where text is read: a sign is taken and the number negated in 64 bits, and one that does not
fit fails the stream. So a state that does not fit (`StateFile.Fits`) is not read back.
-/

namespace NanoSensor

open Bytes

/-! ### Segment file names -/

/-- `"seg-%08llu.log"`. -/
def zeroPad (id : ℕ) : Bytes :=
  ofString "seg-" ++ (List.replicate (8 - (decimal id).length) (digit 0) ++ decimal id) ++
    ofString ".log"

/-- `strtoull` in base ten. -/
def strtoull (s : Bytes) : ℕ :=
  strtoul 64 10 s

/-- The segment id `scan_segments` reads off a directory entry, if it takes it for a segment. -/
def segmentId? (name : Bytes) : Option ℕ :=
  if ¬ ofString "seg-" <+: name ∨ name.length < 8 then none
  else
    let id := strtoull (name.drop 4)
    if id > 0 then some id else none

theorem natOfDigits_replicate_zero_append (k : ℕ) (ds : Bytes) :
    natOfDigits (List.replicate k (digit 0) ++ ds) = natOfDigits ds := by
  have hzero : natOfDigits (List.replicate k (digit 0)) = 0 := by
    induction k with
    | zero => rfl
    | succ k ih => rw [List.replicate_succ', natOfDigits_append, ih]; rfl
  rw [natOfDigits_append, hzero, natOfDigits]

theorem isDigit_of_mem_padded {k id : ℕ} {b : UInt8}
    (h : b ∈ List.replicate k (digit 0) ++ decimal id) : isDigit b = true := by
  rcases List.mem_append.1 h with h | h
  · rw [List.eq_of_mem_replicate h]
    exact isDigit_digit (by decide)
  · exact isDigit_of_mem_decimal h

theorem strtoull_padded (k : ℕ) {id : ℕ} (hid : id < 2 ^ 64) :
    strtoull (List.replicate k (digit 0) ++ decimal id ++ ofString ".log") = id := by
  have hread := readNumber_digits_append
    (List.append_ne_nil_of_right_ne_nil (List.replicate k (digit 0)) (decimal_ne_nil id))
    (fun b hb ↦ isDigit_of_mem_padded hb)
    (show ∀ c ∈ (ofString ".log").head?, isDigit c = false by decide +kernel)
  rw [natOfDigits_replicate_zero_append, natOfDigits_decimal] at hread
  exact strtoul_of_readNumber hread hid

/-- **File-name round trip**: `scan_segments` reads back the id `segment_path` printed. -/
theorem segmentId?_zeroPad {id : ℕ} (h : 0 < id) (hid : id < 2 ^ 64) :
    segmentId? (zeroPad id) = some id := by
  have hseg : ofString "seg-" <+: zeroPad id := by
    rw [zeroPad, List.append_assoc]
    exact List.prefix_append _ _
  have hlen : ¬ (zeroPad id).length < 8 := by
    have hs : (ofString "seg-").length = 4 := by decide
    have hl : (ofString ".log").length = 4 := by decide
    simp only [zeroPad, List.length_append, hs, hl]
    omega
  have hdrop : (zeroPad id).drop 4 =
      List.replicate (8 - (decimal id).length) (digit 0) ++ decimal id ++ ofString ".log" := by
    rw [zeroPad, List.append_assoc]
    exact List.drop_left' (by decide)
  rw [segmentId?, if_neg (by simp [hseg, hlen]), hdrop]
  simp only [strtoull_padded _ hid, gt_iff_lt, h, if_true]

theorem segmentId?_zeroPad_zero : segmentId? (zeroPad 0) = none := by
  decide +kernel

/-! ### The state file -/

/-- The five numbers of the state file. -/
structure StateFile where
  readSegment : ℕ
  readOffset : ℕ
  nextSequence : ℕ
  committed : ℕ
  dropped : ℕ
  deriving DecidableEq, Repr

/-- The five numbers are 64-bit numbers. -/
def StateFile.Fits (st : StateFile) : Prop :=
  st.readSegment < 2 ^ 64 ∧ st.readOffset < 2 ^ 64 ∧ st.nextSequence < 2 ^ 64 ∧
    st.committed < 2 ^ 64 ∧ st.dropped < 2 ^ 64

instance (st : StateFile) : Decidable st.Fits :=
  inferInstanceAs (Decidable (_ ∧ _))

/-- The line `save_state` writes. -/
def stateLine (st : StateFile) : Bytes :=
  decimal st.readSegment ++ ofString " " ++ decimal st.readOffset ++ ofString " " ++
    decimal st.nextSequence ++ ofString " " ++ decimal st.committed ++ ofString " " ++
    decimal st.dropped ++ ofString "\n"

/-- A text input stream: what is left to read, and the two flags a formatted read can raise. -/
structure IStream where
  rest : Bytes
  eof : Bool
  fail : Bool
  deriving DecidableEq, Repr

/-- `f >> value` for an unsigned `value` of 64 bits. A stream that is not good leaves the variable
alone, and so does running out of input while skipping blanks. Input that is not a number stores
zero, a number that does not fit the largest one there is, and both fail; a negative number that
fits is negated in the type. -/
def IStream.extract (f : IStream) (value : ℕ) : ℕ × IStream :=
  if f.eof || f.fail then (value, { f with fail := true })
  else
    let text := f.rest.dropWhile isSpace
    if text = [] then (value, ⟨[], true, true⟩)
    else
      let rest := (takeSign text).2.dropWhile isDigit
      match readNumber 10 text with
      | none => (0, ⟨rest, rest.isEmpty, true⟩)
      | some n =>
        if 2 ^ 64 ≤ n.natAbs then (2 ^ 64 - 1, ⟨rest, rest.isEmpty, true⟩)
        else ((n % 2 ^ 64).toNat, ⟨rest, rest.isEmpty, false⟩)

/-- What is stored fits. -/
theorem IStream.extract_lt (f : IStream) {value : ℕ} (h : value < 2 ^ 64) :
    (f.extract value).1 < 2 ^ 64 := by
  unfold extract
  dsimp only
  split
  · exact h
  · split
    · exact h
    · split
      · exact Nat.two_pow_pos 64
      · split
        · exact Nat.sub_lt (Nat.two_pow_pos 64) Nat.one_pos
        · omega

/-- `f >> seg >> off >> seq >> committed >> dropped`, adopted when `f.good() || f.eof()`. -/
def readState (text : Bytes) : Option StateFile :=
  let f : IStream := ⟨text, false, false⟩
  let (seg, f) := f.extract 0
  let (off, f) := f.extract 0
  let (seq, f) := f.extract 1
  let (committed, f) := f.extract 0
  let (dropped, f) := f.extract 0
  if (!f.eof && !f.fail) || f.eof then some ⟨seg, off, seq, committed, dropped⟩ else none

/-- **A state that is adopted fits.** -/
theorem fits_of_readState {text : Bytes} {st : StateFile} (h : readState text = some st) :
    st.Fits := by
  unfold readState at h
  dsimp only at h
  split at h
  · obtain rfl := Option.some.inj h
    exact ⟨IStream.extract_lt _ (by decide), IStream.extract_lt _ (by decide),
      IStream.extract_lt _ (by decide), IStream.extract_lt _ (by decide),
      IStream.extract_lt _ (by decide)⟩
  · cases h

example : readState (ofString "-1 0 1 0 0\n") = some ⟨2 ^ 64 - 1, 0, 1, 0, 0⟩ := by
  decide +kernel

example : readState (ofString "18446744073709551616 0 1 0 0\n") = none := by
  decide +kernel

/-- Reading a numeral that starts right here, or after one blank, and is followed by a blank. -/
theorem extract_decimal (n value : ℕ) {lead t : Bytes} {b : UInt8}
    (hlead : ∀ c ∈ lead, isSpace c = true) (hb : isDigit b = false) :
    (⟨lead ++ (decimal n ++ b :: t), false, false⟩ : IStream).extract value =
      if n < 2 ^ 64 then (n, ⟨b :: t, false, false⟩) else (2 ^ 64 - 1, ⟨b :: t, false, true⟩) := by
  obtain ⟨d, ds, hds⟩ := List.exists_cons_of_ne_nil (decimal_ne_nil n)
  obtain ⟨hspace, hminus, hplus⟩ := of_isDigitIn (isDigitIn_of_isDigit
    (isDigit_of_mem_decimal (n := n) (by rw [hds]; exact List.mem_cons_self)))
  have hskip : (lead ++ (decimal n ++ b :: t)).dropWhile isSpace = decimal n ++ b :: t := by
    rw [List.dropWhile_append_of_pos hlead, hds, List.cons_append,
      List.dropWhile_cons_of_neg (by simp [hspace])]
  have hsign : takeSign (decimal n ++ b :: t) = (false, decimal n ++ b :: t) := by
    rw [hds, List.cons_append, takeSign, if_neg hminus, if_neg hplus]
  have hread := readNumber_digits_append (w := b :: t) (decimal_ne_nil n)
    (fun _ ↦ isDigit_of_mem_decimal) (by simpa using hb)
  rw [natOfDigits_decimal] at hread
  have hdrop := dropWhile_isDigit_decimal n (t := b :: t)
    (List.dropWhile_cons_of_neg (by simp [hb]))
  have hne : decimal n ++ b :: t ≠ [] := by simp
  simp only [IStream.extract, Bool.or_self, Bool.false_eq_true, if_false, hskip, hsign, hread,
    hdrop, if_neg hne, Int.natAbs_natCast, List.isEmpty_cons]
  by_cases hfits : n < 2 ^ 64
  · have hmod : (n : ℤ) % 2 ^ 64 = n := by omega
    rw [if_neg hfits.not_ge, if_pos hfits, hmod, Int.toNat_natCast]
  · rw [if_pos (not_lt.1 hfits), if_neg hfits]

/-- A stream that has failed leaves the variable alone. -/
theorem extract_of_fail {f : IStream} (h : f.fail = true) (value : ℕ) :
    f.extract value = (value, f) := by
  obtain ⟨rest, eof, fail⟩ := f
  obtain rfl : fail = true := h
  rw [IStream.extract, if_pos (Bool.or_true _)]

/-- **State-file round trip**: a state that does not fit is not adopted. -/
theorem readState_stateLine (st : StateFile) :
    readState (stateLine st) = if st.Fits then some st else none := by
  have hsp : ofString " " = [0x20] := by decide
  have hnl : ofString "\n" = [0x0A] := by decide
  have hblank : ∀ c ∈ ([0x20] : Bytes), isSpace c = true := List.forall_mem_singleton.2 rfl
  have hline : stateLine st =
      [] ++ (decimal st.readSegment ++ 0x20 :: (decimal st.readOffset ++
        0x20 :: (decimal st.nextSequence ++ 0x20 :: (decimal st.committed ++
          0x20 :: (decimal st.dropped ++ 0x0A :: []))))) := by
    simp only [stateLine, hsp, hnl, List.append_assoc, List.cons_append, List.nil_append]
  have hnext : ∀ (n value : ℕ) (b : UInt8) (t : Bytes), isDigit b = false →
      (⟨0x20 :: (decimal n ++ b :: t), false, false⟩ : IStream).extract value =
        if n < 2 ^ 64 then (n, ⟨b :: t, false, false⟩)
        else (2 ^ 64 - 1, ⟨b :: t, false, true⟩) :=
    fun n value b t hb ↦ extract_decimal n value hblank hb
  have hfail : ∀ (value : ℕ) (text : Bytes),
      (⟨text, false, true⟩ : IStream).extract value = (value, ⟨text, false, true⟩) :=
    fun value text ↦ extract_of_fail rfl value
  have h20 : isDigit 0x20 = false := by decide
  have h0A : isDigit 0x0A = false := by decide
  rw [hline, readState, extract_decimal _ _ (by simp) h20]
  unfold StateFile.Fits
  -- the first number that does not fit fails the stream for good
  by_cases hseg : st.readSegment < 2 ^ 64
  · by_cases hoff : st.readOffset < 2 ^ 64
    · by_cases hseq : st.nextSequence < 2 ^ 64
      · by_cases hcommitted : st.committed < 2 ^ 64
        · by_cases hdropped : st.dropped < 2 ^ 64
          · simp only [hseg, hoff, hseq, hcommitted, hdropped, hnext _ _ _ _ h20,
              hnext _ _ _ _ h0A, Bool.not_false, Bool.and_self, Bool.or_false, and_self, if_true]
          · simp [-Nat.reducePow, hseg, hoff, hseq, hcommitted, hdropped, hnext _ _ _ _ h20,
              hnext _ _ _ _ h0A]
        · simp [-Nat.reducePow, hseg, hoff, hseq, hcommitted, hnext _ _ _ _ h20, hfail]
      · simp [-Nat.reducePow, hseg, hoff, hseq, hnext _ _ _ _ h20, hfail]
    · simp [-Nat.reducePow, hseg, hoff, hnext _ _ _ _ h20, hfail]
  · simp [-Nat.reducePow, hseg, hfail]

/-! ### Contents and effects -/

/-- The contents of the spool directory. -/
structure Disk where
  /-- The segment files, by id, in directory order. -/
  segs : AList fun _ : ℕ ↦ Bytes
  /-- The file `state`, if there is one. -/
  state : Option Bytes
  /-- The file `state.tmp`, if there is one. -/
  stateTmp : Option Bytes

/-- One effect on the directory. -/
inductive DiskStep
  /-- Opening a segment for append creates it. -/
  | createSegment (id : ℕ)
  | appendByte (id : ℕ) (b : UInt8)
  | removeSegment (id : ℕ)
  | writeTmp (line : Bytes)
  | removeState
  /-- `state.tmp` takes the place of `state`, in one step. -/
  | renameTmp
  deriving DecidableEq, Repr

/-- The effects on `state` and `state.tmp`. -/
def DiskStep.OnState : DiskStep → Prop
  | .createSegment _ => False
  | .appendByte _ _ => False
  | .removeSegment _ => False
  | .writeTmp _ => True
  | .removeState => True
  | .renameTmp => True

namespace Disk

/-- An empty directory. -/
def empty : Disk := ⟨∅, none, none⟩

/-- The contents of a segment file. -/
def seg (d : Disk) (id : ℕ) : Option Bytes :=
  d.segs.lookup id

/-- The state `load_state` finds in the directory. -/
def savedState (d : Disk) : Option StateFile :=
  d.state.bind readState

/-- Every name in the directory, in directory order. An id is a 64-bit number: another key is the
name of no file. -/
def names (d : Disk) : List Bytes :=
  (d.segs.keys.filter (· < 2 ^ 64)).map zeroPad ++ (d.state.map fun _ ↦ ofString "state").toList ++
    (d.stateTmp.map fun _ ↦ ofString "state.tmp").toList

/-- The directory after one effect. -/
def step (d : Disk) : DiskStep → Disk
  | .createSegment id => if (d.seg id).isSome then d else { d with segs := d.segs.insert id [] }
  | .appendByte id b => { d with segs := d.segs.insert id ((d.seg id).getD [] ++ [b]) }
  | .removeSegment id => { d with segs := d.segs.erase id }
  | .writeTmp line => { d with stateTmp := some line }
  | .removeState => { d with state := none }
  | .renameTmp =>
    match d.stateTmp with
    | some line => { d with state := some line, stateTmp := none }
    | none => d

/-- The directory after a sequence of effects. -/
def run (d : Disk) (steps : List DiskStep) : Disk :=
  steps.foldl step d

@[simp] theorem run_nil (d : Disk) : d.run [] = d := rfl

@[simp] theorem run_cons (d : Disk) (step : DiskStep) (steps : List DiskStep) :
    d.run (step :: steps) = (d.step step).run steps := rfl

theorem run_append (d : Disk) (steps₁ steps₂ : List DiskStep) :
    d.run (steps₁ ++ steps₂) = (d.run steps₁).run steps₂ :=
  List.foldl_append

/-! ### The effects, file by file -/

theorem seg_createSegment (d : Disk) (id i : ℕ) :
    (d.step (.createSegment id)).seg i =
      if i = id then some ((d.seg id).getD []) else d.seg i := by
  rw [step]
  rcases hseg : d.seg id with - | bs
  · rw [if_neg (by simp)]
    split
    · next heq => rw [heq]; exact AList.lookup_insert _
    · next hne => exact AList.lookup_insert_ne hne
  · rw [if_pos Option.isSome_some]
    split
    · next heq => rw [heq, hseg]; rfl
    · rfl

theorem seg_appendByte (d : Disk) (id i : ℕ) (b : UInt8) :
    (d.step (.appendByte id b)).seg i =
      if i = id then some ((d.seg id).getD [] ++ [b]) else d.seg i := by
  rw [step]
  split
  · next heq => rw [heq]; exact AList.lookup_insert _
  · next hne => exact AList.lookup_insert_ne hne

theorem seg_removeSegment (d : Disk) (id i : ℕ) :
    (d.step (.removeSegment id)).seg i = if i = id then none else d.seg i := by
  rw [step]
  split
  · next heq => rw [heq]; exact AList.lookup_erase _ _
  · next hne => exact AList.lookup_erase_ne hne

@[simp] theorem state_createSegment (d : Disk) (id : ℕ) :
    (d.step (.createSegment id)).state = d.state := by
  rw [step]
  split <;> rfl

@[simp] theorem state_appendByte (d : Disk) (id : ℕ) (b : UInt8) :
    (d.step (.appendByte id b)).state = d.state := rfl

@[simp] theorem state_removeSegment (d : Disk) (id : ℕ) :
    (d.step (.removeSegment id)).state = d.state := rfl

/-- The bytes of a frame, or of the beginning of one, arrive behind what the file held. -/
theorem seg_run_appendBytes (d : Disk) (id : ℕ) (bs : Bytes) (i : ℕ) :
    (d.run (bs.map (.appendByte id))).seg i =
      if i = id ∧ bs ≠ [] then some ((d.seg id).getD [] ++ bs) else d.seg i := by
  induction bs generalizing d with
  | nil => simp
  | cons b bs ih =>
    rw [List.map_cons, run_cons, ih, seg_appendByte, seg_appendByte]
    by_cases hi : i = id
    · by_cases hbs : bs = []
      · simp [hi, hbs]
      · simp [hi, hbs]
    · simp [hi]

theorem state_run_appendBytes (d : Disk) (id : ℕ) (bs : Bytes) :
    (d.run (bs.map (.appendByte id))).state = d.state := by
  induction bs generalizing d with
  | nil => rfl
  | cons b bs ih => rw [List.map_cons, run_cons, ih, state_appendByte]

/-- Opening the file and writing `bs` to it. -/
theorem seg_run_write (d : Disk) (id : ℕ) (bs : Bytes) (i : ℕ) :
    (d.run (.createSegment id :: bs.map (.appendByte id))).seg i =
      if i = id then some ((d.seg id).getD [] ++ bs) else d.seg i := by
  rw [run_cons, seg_run_appendBytes, seg_createSegment, seg_createSegment]
  by_cases hi : i = id
  · by_cases hbs : bs = []
    · simp [hi, hbs]
    · simp [hi, hbs]
  · simp [hi]

theorem state_run_write (d : Disk) (id : ℕ) (bs : Bytes) :
    (d.run (.createSegment id :: bs.map (.appendByte id))).state = d.state := by
  rw [run_cons, state_run_appendBytes, state_createSegment]

/-- Effects on the state files leave the segments alone. -/
theorem seg_run_of_onState {steps : List DiskStep} (h : ∀ step ∈ steps, step.OnState) (d : Disk)
    (id : ℕ) : (d.run steps).seg id = d.seg id := by
  induction steps generalizing d with
  | nil => rfl
  | cons first steps ih =>
    rw [run_cons, ih fun later hlater ↦ h later (List.mem_cons_of_mem first hlater)]
    have hfirst := h first List.mem_cons_self
    cases first with
    | createSegment | appendByte | removeSegment => cases hfirst
    | writeTmp | removeState => rfl
    | renameTmp =>
      rw [step]
      split <;> rfl

end Disk

end NanoSensor
