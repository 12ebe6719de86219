import NanoSensor.Foundation.Checksum
import NanoSensor.Spool.Frame

/-!
# Cut and damaged segment files

What the reader loop of `peek` makes of a segment file that is not what `append` wrote.

If the file was cut, it returns the records whose frames are whole, and takes the rest for the tail
of a killed process (`readMany_take_frames`). Nothing is asked of the payloads: one that looks like
a frame does no harm, as the reader never looks into a payload for a header.

If bytes of a payload were changed and all of them lie within four consecutive bytes, the checksum
sees it. The table of `crc32` has entries that differ in their top bytes, and that is all that the
burst guarantee of a table-driven checksum rests on (`TableCrc.run_window`). The reader then returns
the records in front of the damaged one and reports the CRC (`readMany_burst`).
-/

namespace NanoSensor

open Bytes

/-! ### Cut files -/

/-- **The frame codec on every prefix.** From the first `c` bytes of the frames of any payloads the
reader loop returns exactly the payloads whose frames end within those bytes, in order, and reports
no error. From all the bytes it returns all the payloads. -/
theorem readMany_take_frames (payloads : List Bytes) (hfit : ∀ p ∈ payloads, p.length < 2 ^ 32)
    (c : ℕ) :
    (∃ k ≤ payloads.length,
      readMany readFrame ⊤ ((payloads.flatMap frame).take c).length
        ((payloads.flatMap frame).take c) [] = (payloads.take k, none) ∧
      ∀ i < payloads.length, i < k ↔ ((payloads.take (i + 1)).flatMap frame).length ≤ c) ∧
    readMany readFrame ⊤ (payloads.flatMap frame).length (payloads.flatMap frame) [] =
      (payloads, none) := by
  have hfits : ∀ p ∈ payloads, PayloadFits p := fun p hp ↦ Nat.le_of_lt_succ (hfit p hp)
  refine ⟨lawfulFraming_readFrame.readMany_take readFrame_nil hfits c, ?_⟩
  have hwhole : readMany readFrame ⊤ _ (payloads.flatMap frame ++ []) [] = _ :=
    lawfulFraming_readFrame.readMany_encodeAll readFrame_nil (isTorn_nil frame PayloadFits) hfits
      (by simp) (le_refl _)
  rwa [List.append_nil, List.nil_append, takeUpTo_top] at hwhole

/-- Two records, the second with a payload that looks like the frame of an empty record, cut one
byte before the end. -/
theorem readMany_take_frames_two :
    let payloads : List Bytes := [[7], frame []]
    ∃ k ≤ payloads.length,
      readMany readFrame ⊤ ((payloads.flatMap frame).take 36).length
        ((payloads.flatMap frame).take 36) [] = (payloads.take k, none) ∧
      ∀ i < payloads.length, i < k ↔ ((payloads.take (i + 1)).flatMap frame).length ≤ 36 := by
  intro payloads
  exact (readMany_take_frames payloads (by decide +kernel) 36).1

/-! ### The table of the checksum -/

/-- The table of `crc32`, by the byte that selects an entry. -/
def crcEntry (i : BitVec 8) : BitVec 32 :=
  (crcTable (UInt32.ofBitVec (i.setWidth 32))).toBitVec

/-- One of the eight shifts undone. -/
def crcUnshift (c : UInt32) : UInt32 :=
  if c >>> 31 ≠ 0 then ((0xEDB88320 : UInt32) ^^^ c) <<< 1 ||| 1 else c <<< 1

/-- The byte that selects an entry, computed from the top byte of the entry. -/
def crcSelector (top : BitVec 32) : BitVec 8 :=
  ((crcUnshift^[8] (UInt32.ofBitVec (top <<< 24))).toBitVec).setWidth 8

theorem crcSelector_crcEntry (i : BitVec 8) : crcSelector (crcEntry i >>> 24) = i := by
  have hall : ∀ n < 256, crcSelector (crcEntry (BitVec.ofNat 8 n) >>> 24) = BitVec.ofNat 8 n := by
    decide +kernel
  have hi := hall i.toNat i.isLt
  rwa [BitVec.ofNat_toNat, BitVec.setWidth_eq] at hi

/-- The entries of the table differ in their top bytes. -/
theorem topInjective_crcEntry : TableCrc.TopInjective crcEntry := by
  intro i j h
  rw [← crcSelector_crcEntry i, ← crcSelector_crcEntry j]
  exact congrArg crcSelector h

/-! ### The checksum as a run of the table -/

theorem toBitVec_crcIndex (c : UInt32) (p : UInt8) :
    ((c ^^^ p.toUInt32) &&& 0xFF).toBitVec =
      (TableCrc.index c.toBitVec p.toBitVec).setWidth 32 := by
  refine BitVec.eq_of_getLsbD_eq fun i hi ↦ ?_
  have hmask : (0xFF#32).getLsbD i = decide (i < 8) := by
    revert i
    decide
  simp only [TableCrc.index, UInt32.toBitVec_and, UInt32.toBitVec_xor, UInt8.toBitVec_toUInt32,
    UInt32.toBitVec_ofNat, BitVec.getLsbD_and, BitVec.getLsbD_xor, BitVec.getLsbD_setWidth, hmask,
    hi, decide_true, Bool.true_and]
  rcases Nat.lt_or_ge i 8 with h8 | h8
  · simp [h8]
  · simp [Nat.not_lt.2 h8, BitVec.getLsbD_of_ge p.toBitVec i h8]

theorem toBitVec_crcStep (c : UInt32) (p : UInt8) :
    (crcTable ((c ^^^ p.toUInt32) &&& 0xFF) ^^^ (c >>> 8)).toBitVec =
      TableCrc.step crcEntry c.toBitVec p.toBitVec := by
  have hentry : crcTable ((c ^^^ p.toUInt32) &&& 0xFF) =
      UInt32.ofBitVec (crcEntry (TableCrc.index c.toBitVec p.toBitVec)) := by
    rw [crcEntry, ← toBitVec_crcIndex]
  rw [hentry]
  rfl

/-- The loop of `crc32` is a run of its table. -/
theorem toBitVec_crcFold (data : Bytes) (c : UInt32) :
    (data.foldl (fun c p ↦ crcTable ((c ^^^ p.toUInt32) &&& 0xFF) ^^^ (c >>> 8)) c).toBitVec =
      TableCrc.run crcEntry c.toBitVec (data.map UInt8.toBitVec) := by
  induction data generalizing c with
  | nil => rfl
  | cons p data ih =>
    rw [List.foldl_cons, ih, toBitVec_crcStep]
    rfl

/-- **Damage confined to four bytes changes the checksum.** -/
theorem crc32_ne_of_window {payload changed : Bytes} {k : ℕ} (h : AgreeOutside k 4 payload changed)
    (hne : changed ≠ payload) : crc32 changed ≠ crc32 payload := by
  obtain ⟨front, ms, ms', back, rfl, rfl, hlen, hfit⟩ := h.exists_eq
  intro hcrc
  have hfold := UInt32.toBitVec_inj.2 ((UInt32.xor_left_inj _).1 hcrc)
  rw [toBitVec_crcFold, toBitVec_crcFold] at hfold
  simp only [List.map_append] at hfold
  have hmap := TableCrc.run_window topInjective_crcEntry (by decide) (by simp [hlen])
    (by rw [List.length_map]; omega) hfold
  have heq := List.map_injective_iff.2 (fun _ _ ↦ UInt8.toBitVec_inj.1) hmap
  exact hne (by rw [heq])

/-! ### Damaged files -/

/-- A segment file in which the payload of record `i` was overwritten. -/
def damagedSegment (records : List Bytes) (i : ℕ) (changed : Bytes) : Bytes :=
  (records.take i).flatMap frame ++
    (frameHeader (records.getD i []) ++ changed ++ (records.drop (i + 1)).flatMap frame)

/-- **Damage confined to four bytes is always caught.** If the payload of one record is changed, and
all the changed bytes lie within four consecutive bytes, the checksum differs from the stored one,
and the reader returns the records in front of it and reports the CRC. -/
theorem readMany_burst (records : List Bytes) (hfit : ∀ p ∈ records, PayloadFits p) (i : ℕ)
    (hi : i < records.length) (changed : Bytes) (k : ℕ)
    (hwindow : AgreeOutside k 4 records[i] changed) (hne : changed ≠ records[i]) :
    crc32 changed ≠ crc32 records[i] ∧
      readMany readFrame ⊤ (damagedSegment records i changed).length
        (damagedSegment records i changed) [] = (records.take i, some .crcFailed) := by
  have hcrc := crc32_ne_of_window hwindow hne
  refine ⟨hcrc, ?_⟩
  refine lawfulFraming_readFrame.readMany_damaged
    (fun p hp ↦ hfit p (List.mem_of_mem_take hp)) ?_ ?_
  · simp [frameHeader, putU32]
  · rw [List.getD_eq_getElem?_getD, List.getElem?_eq_getElem hi, Option.getD_some,
      List.append_assoc, readFrame_frameHeader_append (hfit _ (List.getElem_mem hi)),
      List.take_left' hwindow.1.symm,
      if_neg (by simp [hwindow.1]), if_pos hcrc]

/-- The second of two records, with its last byte changed. -/
theorem readMany_burst_last_byte :
    crc32 [4, 9] ≠ crc32 [4, 5] ∧
      readMany readFrame ⊤ (damagedSegment [[1, 2, 3], [4, 5]] 1 [4, 9]).length
        (damagedSegment [[1, 2, 3], [4, 5]] 1 [4, 9]) [] = ([[1, 2, 3]], some .crcFailed) := by
  refine readMany_burst [[1, 2, 3], [4, 5]] (by decide) 1 (by decide) [4, 9] 0 ⟨rfl, ?_⟩ (by decide)
  rintro j (hj | hj)
  · exact absurd hj (Nat.not_lt_zero j)
  · rw [List.getElem?_eq_none (by simp; omega), List.getElem?_eq_none (by simp; omega)]

end NanoSensor
