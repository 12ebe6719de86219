import NanoSensor.Foundation.Bytes

/-!
# Well-formed UTF-8

A byte string is well-formed when it is the encoding of some text, with the encoding of a character
taken from Lean's own `String.utf8EncodeChar`. What makes UTF-8 usable in formats that are built
from ASCII delimiters is that a byte below `0x80` is always a character of its own:
`valid_append_cons_iff` cuts a text at such a byte, and everything else here follows from it.

`valid_flatMap_iff` is the statement an escaper needs: replacing ASCII bytes by non-empty ASCII
strings, and leaving the other bytes alone, neither makes nor mends an ill-formed string.
-/

namespace Utf8

open Bytes

/-- Well-formed UTF-8. -/
def Valid (bs : Bytes) : Prop :=
  ∃ cs : List Char, cs.flatMap String.utf8EncodeChar = bs

/-- All bytes below `0x80`. -/
def IsAscii (bs : Bytes) : Prop :=
  ∀ b ∈ bs, b < 0x80

instance (bs : Bytes) : Decidable (IsAscii bs) :=
  List.decidableBAll (· < 0x80) bs

/-- It is what Lean's own check of a byte array asks for. -/
theorem isValidUTF8_toByteArray_iff (bs : Bytes) : bs.toByteArray.IsValidUTF8 ↔ Valid bs := by
  constructor
  · rintro ⟨cs, h⟩
    have hbytes := congrArg (fun b : ByteArray ↦ b.data.toList) h
    exact ⟨cs, by simpa [List.utf8Encode] using hbytes.symm⟩
  · rintro ⟨cs, rfl⟩
    exact ⟨cs, rfl⟩

instance (bs : Bytes) : Decidable (Valid bs) :=
  decidable_of_iff _ (isValidUTF8_toByteArray_iff bs)

theorem valid_nil : Valid [] :=
  ⟨[], rfl⟩

theorem valid_ofString (s : String) : Valid (ofString s) :=
  ⟨s.toList, rfl⟩

theorem Valid.append {a b : Bytes} (ha : Valid a) (hb : Valid b) : Valid (a ++ b) := by
  obtain ⟨cs, rfl⟩ := ha
  obtain ⟨ds, rfl⟩ := hb
  exact ⟨cs ++ ds, List.flatMap_append⟩

/-- An ASCII byte is a character of its own. -/
theorem valid_singleton {b : UInt8} (hb : b < 0x80) : Valid [b] := by
  have hchar : ∀ n < 0x80, String.utf8EncodeChar (Char.ofNat n) = [UInt8.ofNat n] := by decide
  refine ⟨[Char.ofNat b.toNat], ?_⟩
  rw [List.flatMap_singleton, hchar _ (UInt8.lt_iff_toNat_lt.1 hb), UInt8.ofNat_toNat]

/-- A character is encoded as one ASCII byte, or as several bytes that are not ASCII. -/
theorem utf8EncodeChar_cases (c : Char) :
    (∃ b, String.utf8EncodeChar c = [b] ∧ b < 0x80) ∨
      1 < (String.utf8EncodeChar c).length ∧ ∀ b ∈ String.utf8EncodeChar c, ¬ b < 0x80 := by
  rw [String.utf8EncodeChar]
  generalize c.val.toNat = v
  by_cases h₁ : v ≤ 127
  · refine Or.inl ⟨UInt8.ofNat v, if_pos h₁, ?_⟩
    rw [UInt8.lt_iff_toNat_lt, UInt8.toNat_ofNat']
    show v % 256 < 128
    omega
  · refine Or.inr ?_
    rw [if_neg h₁]
    split
    · refine ⟨by simp, ?_⟩
      simp [UInt8.lt_iff_toNat_lt]
      omega
    · split
      · refine ⟨by simp, ?_⟩
        simp [UInt8.lt_iff_toNat_lt]
        omega
      · refine ⟨by simp, ?_⟩
        simp [UInt8.lt_iff_toNat_lt]
        omega

/-- **A text can be cut at an ASCII byte.** -/
theorem valid_append_cons_iff {a b : Bytes} {x : UInt8} (hx : x < 0x80) :
    Valid (a ++ x :: b) ↔ Valid a ∧ Valid b := by
  constructor
  · rintro ⟨cs, hcs⟩
    induction cs generalizing a with
    | nil => simp at hcs
    | cons c cs ih =>
      rw [List.flatMap_cons, List.append_eq_append_iff] at hcs
      rcases hcs with ⟨a', rfl, hrest⟩ | ⟨b', hc, hb'⟩
      · obtain ⟨ha', hb⟩ := ih hrest
        exact ⟨Valid.append ⟨[c], by simp⟩ ha', hb⟩
      · rcases b' with - | ⟨y, b'⟩
        · -- the cut is right behind the character
          rw [List.append_nil] at hc
          obtain ⟨ha', hb⟩ := ih (a := []) (by simpa using hb'.symm)
          exact ⟨⟨[c], by simpa using hc⟩, hb⟩
        · obtain ⟨rfl, rfl⟩ := List.cons.inj hb'
          rcases utf8EncodeChar_cases c with ⟨z, hz, -⟩ | ⟨-, hhigh⟩
          · rw [hz, List.singleton_eq_append_iff] at hc
            rcases hc with ⟨rfl, hc⟩ | ⟨-, hc⟩
            · obtain ⟨-, rfl⟩ := List.cons.inj hc
              exact ⟨valid_nil, cs, rfl⟩
            · cases hc
          · exact absurd hx (hhigh x (by rw [hc]; simp))
  · rintro ⟨ha, hb⟩
    exact ha.append (Valid.append (valid_singleton hx) hb)

/-- ASCII text in front changes nothing. -/
theorem valid_ascii_append_iff {t b : Bytes} (ht : IsAscii t) : Valid (t ++ b) ↔ Valid b := by
  induction t with
  | nil => rfl
  | cons x t ih =>
    have hcut := valid_append_cons_iff (a := []) (b := t ++ b) (ht x List.mem_cons_self)
    rw [List.nil_append, and_iff_right valid_nil] at hcut
    exact hcut.trans (ih fun y hy ↦ ht y (List.mem_cons_of_mem x hy))

/-- **A text can be cut at any non-empty piece of ASCII.** -/
theorem valid_append_ascii_append_iff {a t b : Bytes} (ht : IsAscii t) (hne : t ≠ []) :
    Valid (a ++ (t ++ b)) ↔ Valid a ∧ Valid b := by
  obtain ⟨x, t, rfl⟩ := List.exists_cons_of_ne_nil hne
  have htail : IsAscii t := fun y hy ↦ ht y (List.mem_cons_of_mem x hy)
  rw [List.cons_append, valid_append_cons_iff (ht x List.mem_cons_self),
    valid_ascii_append_iff htail]

/-- ASCII text behind changes nothing. -/
theorem valid_append_ascii_iff {a t : Bytes} (ht : IsAscii t) : Valid (a ++ t) ↔ Valid a := by
  rcases eq_or_ne t [] with rfl | hne
  · rw [List.append_nil]
  · have hcut := valid_append_ascii_append_iff (a := a) (b := []) ht hne
    rwa [List.append_nil, and_iff_left valid_nil] at hcut

/-- **Escaping ASCII bytes** by non-empty ASCII strings neither makes nor mends an ill-formed
string. -/
theorem valid_flatMap_iff {f : UInt8 → Bytes} (hascii : ∀ b < 0x80, IsAscii (f b) ∧ f b ≠ [])
    (hhigh : ∀ b, ¬ b < 0x80 → f b = [b]) (s : Bytes) : Valid (s.flatMap f) ↔ Valid s := by
  induction hn : s.length using Nat.strong_induction_on generalizing s with
  | _ n ih =>
    -- cut at the first ASCII byte
    have hfront : ∀ l : Bytes, (∀ b ∈ l, ¬ b < 0x80) → l.flatMap f = l := fun l hl ↦ by
      rw [List.flatMap_congr fun b hb ↦ hhigh b (hl b hb), List.flatMap_singleton']
    rcases hcut : s.dropWhile (fun b ↦ ¬ b < 0x80) with - | ⟨x, b⟩
    · rw [hfront s fun b hb ↦ by simpa using List.dropWhile_eq_nil_iff.1 hcut b hb]
    · have hx : x < 0x80 := by
        have := List.head?_dropWhile_not (fun b : UInt8 ↦ decide (¬ b < 0x80)) s
        rw [hcut] at this
        simpa using this
      have hs : s = s.takeWhile (fun b ↦ ¬ b < 0x80) ++ x :: b := by
        rw [← hcut, List.takeWhile_append_dropWhile]
      have ha := hfront (s.takeWhile fun b ↦ ¬ b < 0x80) fun b hb ↦ by
        simpa using List.mem_takeWhile_imp hb
      generalize s.takeWhile (fun b ↦ ¬ b < 0x80) = a at hs ha
      obtain ⟨hfx, hne⟩ := hascii x hx
      have hb := ih b.length (by rw [← hn, hs]; simp; omega) b rfl
      rw [hs, List.flatMap_append, List.flatMap_cons, ha, valid_append_cons_iff hx,
        valid_append_ascii_append_iff hfx hne, hb]

/-- A single byte is a text exactly when it is ASCII. -/
theorem valid_singleton_iff {b : UInt8} : Valid [b] ↔ b < 0x80 := by
  refine ⟨?_, valid_singleton⟩
  rintro ⟨cs, hcs⟩
  rcases cs with - | ⟨c, cs⟩
  · cases hcs
  · rw [List.flatMap_cons] at hcs
    rcases utf8EncodeChar_cases c with ⟨x, hx, hlt⟩ | ⟨hlong, -⟩
    · rw [hx] at hcs
      obtain ⟨rfl, -⟩ := List.cons.inj hcs
      exact hlt
    · have hlen := congrArg List.length hcs
      rw [List.length_append, List.length_singleton] at hlen
      omega

/-- Texts with an ASCII separator between them. -/
theorem valid_intercalate_iff {sep : Bytes} (hascii : IsAscii sep) (hne : sep ≠ [])
    (ts : List Bytes) : Valid (sep.intercalate ts) ↔ ∀ t ∈ ts, Valid t := by
  induction ts with
  | nil => exact iff_of_true valid_nil (List.forall_mem_nil _)
  | cons t ts ih =>
    cases ts with
    | nil => rw [List.intercalate_singleton, List.forall_mem_singleton]
    | cons u ts =>
      rw [List.intercalate_cons_cons, List.append_assoc, valid_append_ascii_append_iff hascii hne,
        ih]
      exact (List.forall_mem_cons).symm

end Utf8
