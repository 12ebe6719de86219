import Mathlib.Data.List.Basic

/-!
# Table-driven checksums

A cyclic redundancy check over bytes keeps a register of `w` bits. For every byte it looks up a
table at the low byte of the register, mixed with the byte, and shifts the register down by eight.

All that is asked of the table is that its entries differ in their top bytes (`TopInjective`). Then
the top byte of the register after a step tells which entry was used, so that the step can be undone
as far as the register is known: `step_back` says that knowing the register above bit `k` after a
step is knowing it above bit `k + 8` before.

Two consequences make the checksum useful. Registers that differ stay different (`run_injective`).
And bytes that fill no more than the register are told apart (`run_window`): a change confined to
`w / 8` consecutive bytes is always seen.
-/

namespace TableCrc

variable {w : ℕ} (table : BitVec 8 → BitVec w)

/-- The table entry that a byte selects. -/
def index (c : BitVec w) (p : BitVec 8) : BitVec 8 :=
  c.setWidth 8 ^^^ p

/-- One byte. -/
def step (c : BitVec w) (p : BitVec 8) : BitVec w :=
  table (index c p) ^^^ (c >>> 8)

/-- The bytes one after the other. -/
def run (c : BitVec w) (ps : List (BitVec 8)) : BitVec w :=
  ps.foldl (step table) c

/-- The entries of the table differ in their top bytes. -/
def TopInjective : Prop :=
  ∀ i j, table i >>> (w - 8) = table j >>> (w - 8) → i = j

@[simp] theorem run_nil (c : BitVec w) : run table c [] = c := rfl

@[simp] theorem run_cons (c : BitVec w) (p : BitVec 8) (ps : List (BitVec 8)) :
    run table c (p :: ps) = run table (step table c p) ps := rfl

theorem run_append (c : BitVec w) (ps qs : List (BitVec 8)) :
    run table c (ps ++ qs) = run table (run table c ps) qs :=
  List.foldl_append

variable {table}

theorem step_shiftRight (c : BitVec w) (p : BitVec 8) (k : ℕ) :
    step table c p >>> k = table (index c p) >>> k ^^^ c >>> (k + 8) := by
  rw [step, BitVec.ushiftRight_xor_distrib, ← BitVec.shiftRight_add, Nat.add_comm 8 k]

/-- **A step undone.** What is known of the register above bit `k` after a step is known above bit
`k + 8` before it, and so is the entry that was used. -/
theorem step_back (h : TopInjective table) {k : ℕ} (hk : k + 8 ≤ w) {c c' : BitVec w}
    {p p' : BitVec 8} (hstep : step table c p >>> k = step table c' p' >>> k) :
    index c p = index c' p' ∧ c >>> (k + 8) = c' >>> (k + 8) := by
  -- the shifted register has a zero top byte, so that of the sum is the table's
  have htop : ∀ (c : BitVec w) (p : BitVec 8),
      step table c p >>> k >>> (w - 8 - k) = table (index c p) >>> (w - 8) := by
    intro c p
    have hk' : k + (w - 8 - k) = w - 8 := by omega
    have hw : w - 8 + 8 = w := by omega
    rw [← BitVec.shiftRight_add, hk', step_shiftRight, hw,
      BitVec.ushiftRight_eq_zero (Nat.le_refl w), BitVec.xor_zero]
  have hindex : index c p = index c' p' := by
    refine h _ _ ?_
    rw [← htop c p, ← htop c' p', hstep]
  refine ⟨hindex, ?_⟩
  rw [step_shiftRight, step_shiftRight, hindex] at hstep
  exact (BitVec.xor_right_inj _).1 hstep

theorem index_right_inj {c : BitVec w} {p p' : BitVec 8} (h : index c p = index c p') : p = p' :=
  (BitVec.xor_right_inj _).1 h

/-- A register is its low byte and the rest. -/
theorem eq_of_low_of_high {c c' : BitVec w} (hlow : c.setWidth 8 = c'.setWidth 8)
    (hhigh : c >>> 8 = c' >>> 8) : c = c' := by
  refine BitVec.eq_of_getLsbD_eq fun i hi ↦ ?_
  rcases Nat.lt_or_ge i 8 with h8 | h8
  · have hbit := congrArg (BitVec.getLsbD · i) hlow
    simpa only [BitVec.getLsbD_setWidth, h8, decide_true, Bool.true_and] using hbit
  · have hbit := congrArg (BitVec.getLsbD · (i - 8)) hhigh
    simpa only [BitVec.getLsbD_ushiftRight, Nat.add_sub_cancel' h8] using hbit

/-- On one byte, registers that differ stay different. -/
theorem step_injective (h : TopInjective table) (hw : 8 ≤ w) {c c' : BitVec w} {p : BitVec 8}
    (hstep : step table c p = step table c' p) : c = c' := by
  have hshift : step table c p >>> 0 = step table c' p >>> 0 := by rw [hstep]
  obtain ⟨hindex, hhigh⟩ := step_back h (by omega) hshift
  exact eq_of_low_of_high ((BitVec.xor_left_inj _).1 hindex) hhigh

/-- **Registers that differ stay different**, whatever bytes follow. -/
theorem run_injective (h : TopInjective table) (hw : 8 ≤ w) {ps : List (BitVec 8)} :
    ∀ {c c' : BitVec w}, run table c ps = run table c' ps → c = c' := by
  induction ps with
  | nil => exact fun hrun ↦ hrun
  | cons p ps ih =>
    intro c c' hrun
    exact step_injective h hw (ih hrun)

/-- Bytes traced back from the register they leave: it is known in part before them, and if they
start from the same register they are the same bytes. -/
theorem run_back (h : TopInjective table) {ps : List (BitVec 8)} :
    ∀ {ps' : List (BitVec 8)} {c c' : BitVec w} {k : ℕ}, ps.length = ps'.length →
      k + 8 * ps.length ≤ w → run table c ps >>> k = run table c' ps' >>> k →
      c >>> (k + 8 * ps.length) = c' >>> (k + 8 * ps.length) ∧ (c = c' → ps = ps') := by
  induction ps with
  | nil =>
    intro ps' c c' k hlen _ hrun
    obtain rfl := List.length_eq_zero_iff.1 hlen.symm
    exact ⟨hrun, fun _ ↦ rfl⟩
  | cons p ps ih =>
    intro ps' c c' k hlen hk hrun
    obtain ⟨p', ps', rfl⟩ := List.exists_cons_of_length_eq_add_one hlen.symm
    rw [List.length_cons] at hk
    obtain ⟨hhigh, hsame⟩ := ih (Nat.succ.inj hlen) (by omega) hrun
    obtain ⟨hindex, hback⟩ := step_back h (by omega) hhigh
    refine ⟨hback, ?_⟩
    rintro rfl
    obtain rfl := index_right_inj hindex
    rw [hsame rfl]

/-- **Bytes that fill no more than the register are told apart**, whatever stands before and behind
them. -/
theorem run_window (h : TopInjective table) (hw : 8 ≤ w) {c : BitVec w}
    {front ms ms' back : List (BitVec 8)} (hlen : ms.length = ms'.length)
    (hfit : 8 * ms.length ≤ w)
    (hrun : run table c (front ++ ms ++ back) = run table c (front ++ ms' ++ back)) : ms = ms' := by
  rw [run_append, run_append, run_append table c (front ++ ms'), run_append table c front] at hrun
  have hmid : run table (run table c front) ms >>> 0 = run table (run table c front) ms' >>> 0 := by
    rw [run_injective h hw hrun]
  exact (run_back h hlen (by omega) hmid).2 rfl

end TableCrc

/-! ### Windows -/

variable {α : Type*}

/-- The two lists differ at most within the `n` places from `k` on. -/
def AgreeOutside (k n : ℕ) (l l' : List α) : Prop :=
  l.length = l'.length ∧ ∀ j, j < k ∨ k + n ≤ j → l[j]? = l'[j]?

/-- Lists that agree outside a window have their beginnings and ends in common. -/
theorem AgreeOutside.exists_eq {k n : ℕ} {l l' : List α} (h : AgreeOutside k n l l') :
    ∃ front ms ms' back, l = front ++ ms ++ back ∧ l' = front ++ ms' ++ back ∧
      ms.length = ms'.length ∧ ms.length ≤ n := by
  have hfront : l.take k = l'.take k := by
    refine List.ext_getElem? fun j ↦ ?_
    rw [List.getElem?_take, List.getElem?_take]
    split
    · next hj => exact h.2 j (Or.inl hj)
    · rfl
  have hback : l.drop (k + n) = l'.drop (k + n) := by
    refine List.ext_getElem? fun j ↦ ?_
    rw [List.getElem?_drop, List.getElem?_drop]
    exact h.2 _ (Or.inr (Nat.le_add_right _ _))
  have hsplit : ∀ l : List α, l = l.take k ++ (l.drop k).take n ++ l.drop (k + n) := by
    intro l
    rw [← List.drop_drop, List.append_assoc, List.take_append_drop, List.take_append_drop]
  refine ⟨l.take k, (l.drop k).take n, (l'.drop k).take n, l.drop (k + n), hsplit l, ?_, ?_, ?_⟩
  · rw [hfront, hback]
    exact hsplit l'
  · rw [List.length_take, List.length_take, List.length_drop, List.length_drop, h.1]
  · exact List.length_take_le n _
