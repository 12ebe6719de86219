import NanoSensor.Foundation.Bytes
import NanoSensor.Foundation.Framing

/-!
# The record frame of the spool

`u32 magic | u32 payload_length | u32 crc32(payload) | payload bytes`, little-endian. This module
embeds the checksum and the byte codec of `src/spool.cpp`, the frame `append` writes, and the two
readers of it, which are **not** the same function:

* `readFrame` is one turn of the loop in `peek`. It wants the whole payload and checks its CRC.
* `frameStep` is one turn of the loop in `commit`. It reads the header and seeks; a seek past the
  end of the file succeeds, so it steps over a frame whose payload is missing just as readily.

The first is lawful in the sense of `LawfulFraming` for every payload the length field can express
(`lawfulFraming_readFrame`). The second agrees with it on whole frames (`frameStep_frame_append`)
and departs from it on a torn frame whose header is complete (`frameStep_of_isTorn`).
-/

namespace NanoSensor

open Bytes

/-- `"NSP1"`. -/
def kMagic : UInt32 := 0x4E535031

/-- Magic, length and CRC. -/
def kHeaderBytes : ℕ := 12

/-! ### The checksum -/

/-- One of the eight shifts that build a table entry. -/
def crcShift (c : UInt32) : UInt32 :=
  if c &&& 1 ≠ 0 then (0xEDB88320 : UInt32) ^^^ (c >>> 1) else c >>> 1

/-- `table[i]`. -/
def crcTable (i : UInt32) : UInt32 :=
  crcShift^[8] i

/-- The CRC-32 of a byte string, reflected, with the usual pre- and post-inversion. -/
def crc32 (data : Bytes) : UInt32 :=
  data.foldl (fun c p ↦ crcTable ((c ^^^ p.toUInt32) &&& 0xFF) ^^^ (c >>> 8)) 0xFFFFFFFF ^^^
    0xFFFFFFFF

-- the check value of the CRC catalogues
example : crc32 (ofString "123456789") = 0xCBF43926 := by decide +kernel

/-! ### Little-endian words -/

/-- The four bytes of a word, low byte first. -/
def putU32 (v : UInt32) : Bytes :=
  [v.toUInt8, (v >>> 8).toUInt8, (v >>> 16).toUInt8, (v >>> 24).toUInt8]

/-- The word in the first four bytes. -/
def getU32 (src : Bytes) : UInt32 :=
  (src.getD 0 0).toUInt32 ||| ((src.getD 1 0).toUInt32 <<< 8) |||
    ((src.getD 2 0).toUInt32 <<< 16) ||| ((src.getD 3 0).toUInt32 <<< 24)

@[simp] theorem length_putU32 (v : UInt32) : (putU32 v).length = 4 := rfl

private theorem bitVec_of_bytes (v : BitVec 32) :
    (v.setWidth 8).setWidth 32 ||| ((v >>> 8).setWidth 8).setWidth 32 <<< 8 |||
      ((v >>> 16).setWidth 8).setWidth 32 <<< 16 |||
      ((v >>> 24).setWidth 8).setWidth 32 <<< 24 = v := by
  refine BitVec.eq_of_getLsbD_eq fun i hi ↦ ?_
  simp only [BitVec.getLsbD_or, BitVec.getLsbD_shiftLeft, BitVec.getLsbD_setWidth,
    BitVec.getLsbD_ushiftRight]
  rcases lt_or_ge i 8 with h8 | h8
  · grind
  · rcases lt_or_ge i 16 with h16 | h16 <;> grind

/-- **Word round trip**, whatever follows the four bytes. -/
theorem getU32_putU32_append (v : UInt32) (rest : Bytes) : getU32 (putU32 v ++ rest) = v := by
  simp only [getU32, putU32, List.cons_append, List.nil_append, List.getD_cons_zero,
    List.getD_cons_succ]
  exact UInt32.toBitVec_inj.1 (bitVec_of_bytes v.toBitVec)

/-! ### Writing a frame -/

/-- The twelve header bytes `append` builds. -/
def frameHeader (payload : Bytes) : Bytes :=
  putU32 kMagic ++ putU32 (UInt32.ofNat payload.length) ++ putU32 (crc32 payload)

/-- What `append` writes for a payload: header, then payload. -/
def frame (payload : Bytes) : Bytes :=
  frameHeader payload ++ payload

/-- The payloads `append` accepts: those whose size the length field can hold. -/
def PayloadFits (payload : Bytes) : Prop :=
  payload.length ≤ 0xFFFFFFFF

instance (payload : Bytes) : Decidable (PayloadFits payload) :=
  inferInstanceAs (Decidable (payload.length ≤ 0xFFFFFFFF))

@[simp] theorem length_frameHeader (payload : Bytes) :
    (frameHeader payload).length = kHeaderBytes := rfl

theorem length_frame (payload : Bytes) :
    (frame payload).length = kHeaderBytes + payload.length := by
  rw [frame, List.length_append, length_frameHeader]

/-- A frame field by field, cut after `n` bytes. -/
theorem take_frame (payload : Bytes) (n : ℕ) :
    (frame payload).take n =
      (putU32 kMagic).take n ++ ((putU32 (UInt32.ofNat payload.length)).take (n - 4) ++
        ((putU32 (crc32 payload)).take (n - 8) ++ payload.take (n - 12))) := by
  rw [frame, frameHeader, List.append_assoc, List.append_assoc, List.take_append,
    List.take_append, List.take_append]
  simp only [length_putU32, Nat.sub_sub]

theorem frame_ne_nil (payload : Bytes) : frame payload ≠ [] := by
  rw [← List.length_pos_iff, length_frame]
  exact Nat.add_pos_left (by decide) _

theorem getU32_frameHeader (payload : Bytes) : getU32 (frameHeader payload) = kMagic := by
  rw [frameHeader, List.append_assoc, getU32_putU32_append]

theorem getU32_drop_four_frameHeader {payload : Bytes} (h : PayloadFits payload) :
    (getU32 ((frameHeader payload).drop 4)).toNat = payload.length := by
  rw [frameHeader, List.append_assoc, List.drop_left' (length_putU32 _), getU32_putU32_append,
    UInt32.toNat_ofNat']
  exact Nat.mod_eq_of_lt (Nat.lt_of_le_of_lt h (by decide))

theorem getU32_drop_eight_frameHeader (payload : Bytes) :
    getU32 ((frameHeader payload).drop 8) = crc32 payload := by
  have h := getU32_putU32_append (crc32 payload) []
  rwa [List.append_nil] at h

/-! ### The two readers -/

/-- What can be wrong with a frame, as far as `peek` reports it. -/
inductive PeekError
  | magicMismatch
  | crcFailed
  deriving DecidableEq, Repr

/-- The text `peek` leaves in its `error` argument. -/
def PeekError.message : PeekError → String
  | .magicMismatch => "spool frame magic mismatch; stopping at the damaged record"
  | .crcFailed => "spool record failed CRC; stopping at the damaged record"

/-- One turn of the reader loop in `peek`. -/
def readFrame (f : Bytes) : ReadStep PeekError Bytes UInt8 :=
  let header := f.take kHeaderBytes
  if header.length ≠ kHeaderBytes then .short
  else if getU32 header ≠ kMagic then .damaged .magicMismatch
  else
    let len := (getU32 (header.drop 4)).toNat
    let wantCrc := getU32 (header.drop 8)
    let payload := (f.drop kHeaderBytes).take len
    -- a short tail: the process was killed inside `append`
    if payload.length ≠ len then .short
    else if crc32 payload ≠ wantCrc then .damaged .crcFailed
    else .item payload (f.drop (kHeaderBytes + len))

/-- One turn of the frame walk in `commit`: how far it seeks, if it does. -/
def frameStep (f : Bytes) : Option ℕ :=
  let header := f.take kHeaderBytes
  if header.length ≠ kHeaderBytes then none
  else if getU32 header ≠ kMagic then none
  else some (kHeaderBytes + (getU32 (header.drop 4)).toNat)

/-! ### What they make of a frame -/

/-- A stream that starts with the header of a frame is read as that header. -/
theorem readFrame_frameHeader_append {payload : Bytes} (h : PayloadFits payload) (rest : Bytes) :
    readFrame (frameHeader payload ++ rest) =
      if (rest.take payload.length).length ≠ payload.length then .short
      else if crc32 (rest.take payload.length) ≠ crc32 payload then .damaged .crcFailed
      else .item (rest.take payload.length) (rest.drop payload.length) := by
  have htake : (frameHeader payload ++ rest).take kHeaderBytes = frameHeader payload :=
    List.take_left' (length_frameHeader payload)
  have hdrop : (frameHeader payload ++ rest).drop kHeaderBytes = rest :=
    List.drop_left' (length_frameHeader payload)
  simp only [readFrame, htake, hdrop, length_frameHeader, getU32_frameHeader, ← List.drop_drop,
    getU32_drop_four_frameHeader h, getU32_drop_eight_frameHeader, ne_eq, not_true_eq_false,
    if_false]

theorem readFrame_of_length_lt {f : Bytes} (h : f.length < kHeaderBytes) :
    readFrame f = .short := by
  have hlen : (f.take kHeaderBytes).length ≠ kHeaderBytes := by
    rw [List.length_take]; omega
  simp only [readFrame, if_pos hlen]

/-- A field of the header reads the same with or without what follows the header. -/
theorem getU32_drop_take {f : Bytes} {k n : ℕ} (h : k + 4 ≤ n) :
    getU32 ((f.take n).drop k) = getU32 (f.drop k) := by
  have hget : ∀ i < 4, ((f.take n).drop k).getD i 0 = (f.drop k).getD i 0 := fun i hi ↦ by
    rw [List.getD_eq_getElem?_getD, List.getD_eq_getElem?_getD, List.getElem?_drop,
      List.getElem?_drop, List.getElem?_take_of_lt (by omega)]
  rw [getU32, getU32, hget 0 (by decide), hget 1 (by decide), hget 2 (by decide),
    hget 3 (by decide)]

/-- What a frame that reads back looks like. -/
theorem of_readFrame_eq_item {f q rest : Bytes} (h : readFrame f = .item q rest) :
    getU32 f = kMagic ∧ q.length = (getU32 (f.drop 4)).toNat ∧ crc32 q = getU32 (f.drop 8) ∧
      f.length = kHeaderBytes + q.length + rest.length := by
  have h0 := getU32_drop_take (f := f) (k := 0) (n := kHeaderBytes) (by decide)
  have h4 := getU32_drop_take (f := f) (k := 4) (n := kHeaderBytes) (by decide)
  have h8 := getU32_drop_take (f := f) (k := 8) (n := kHeaderBytes) (by decide)
  rw [List.drop_zero, List.drop_zero] at h0
  simp only [readFrame, h0, h4, h8] at h
  split at h
  · cases h
  · next hlen =>
    split at h
    · cases h
    · next hmagic =>
      split at h
      · cases h
      · next hshort =>
        split at h
        · cases h
        · next hcrc =>
          obtain ⟨rfl, rfl⟩ := ReadStep.item.inj h
          rw [not_not] at hlen hmagic hshort hcrc
          refine ⟨hmagic, hshort, hcrc, ?_⟩
          rw [List.length_take] at hlen
          rw [hshort, List.length_drop]
          rw [List.length_take, List.length_drop] at hshort
          omega

/-- A proper prefix of a frame is a piece of the header, or the header and a piece of the
payload. -/
theorem prefix_frame_cases {payload t : Bytes} (hpre : t <+: frame payload)
    (hne : t ≠ frame payload) :
    t.length < kHeaderBytes ∨ ∃ r, t = frameHeader payload ++ r ∧ r.length < payload.length := by
  rcases lt_or_ge t.length kHeaderBytes with hlt | hge
  · exact Or.inl hlt
  · right
    obtain ⟨r, rfl⟩ : frameHeader payload <+: t :=
      List.prefix_of_prefix_length_le (List.prefix_append _ _) hpre
        (by rw [length_frameHeader]; exact hge)
    refine ⟨r, rfl, ?_⟩
    have hlen : (frameHeader payload ++ r).length < (frame payload).length :=
      lt_of_le_of_ne hpre.length_le fun heq ↦ hne (hpre.eq_of_length heq)
    rw [List.length_append, length_frameHeader, length_frame] at hlen
    omega

/-- **The frame codec is lawful** on every payload the length field can express. -/
theorem lawfulFraming_readFrame : LawfulFraming readFrame frame PayloadFits where
  encode_ne_nil := fun _ ↦ frame_ne_nil _
  read_encode := fun {payload} h rest ↦ by
    rw [frame, List.append_assoc, readFrame_frameHeader_append h]
    simp only [List.take_left, List.drop_left, ne_eq, not_true_eq_false, if_false]
  read_torn := fun {payload t} h hpre hne ↦ by
    rcases prefix_frame_cases hpre hne with hlt | ⟨r, rfl, hr⟩
    · exact readFrame_of_length_lt hlt
    · rw [readFrame_frameHeader_append h, if_pos]
      rw [List.length_take]
      omega

theorem readFrame_nil : readFrame [] = .short :=
  readFrame_of_length_lt (by decide)

theorem frameStep_of_length_lt {f : Bytes} (h : f.length < kHeaderBytes) : frameStep f = none := by
  have hlen : (f.take kHeaderBytes).length ≠ kHeaderBytes := by
    rw [List.length_take]; omega
  simp only [frameStep, if_pos hlen]

theorem frameStep_frameHeader_append {payload : Bytes} (h : PayloadFits payload) (rest : Bytes) :
    frameStep (frameHeader payload ++ rest) = some (kHeaderBytes + payload.length) := by
  have htake : (frameHeader payload ++ rest).take kHeaderBytes = frameHeader payload :=
    List.take_left' (length_frameHeader payload)
  simp only [frameStep, htake, length_frameHeader, getU32_frameHeader,
    getU32_drop_four_frameHeader h, ne_eq, not_true_eq_false, if_false]

theorem frameStep_frame_append {payload : Bytes} (h : PayloadFits payload) (rest : Bytes) :
    frameStep (frame payload ++ rest) = some (kHeaderBytes + payload.length) := by
  rw [frame, List.append_assoc, frameStep_frameHeader_append h]

/-- **`commit` steps over a torn frame once its header is complete**, and lands past the end of the
file. -/
theorem frameStep_of_isTorn {t : Bytes} (ht : IsTorn frame PayloadFits t)
    (hlen : kHeaderBytes ≤ t.length) : ∃ k, frameStep t = some k ∧ t.length < k := by
  rcases ht with rfl | ⟨payload, hfits, hpre, hne⟩
  · exact absurd hlen (by decide)
  · rcases prefix_frame_cases hpre hne with hlt | ⟨r, rfl, hr⟩
    · omega
    · refine ⟨_, frameStep_frameHeader_append hfits r, ?_⟩
      rw [List.length_append, length_frameHeader]
      omega

end NanoSensor
