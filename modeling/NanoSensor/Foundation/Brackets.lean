import Mathlib.Data.List.Basic

/-!
# Text outside brackets

A scanner that counts how deep in brackets it is, and keeps what it meets at depth zero. It does not
tell one kind of bracket from another. A closing bracket that nothing has opened is passed over, and
behind an opening bracket that nothing closes all is inside.

`outside_append` says that the depth is all a text leaves behind for the one that follows it. So a
text that gives back the depth it was given can be taken out without a trace, if it is inside
brackets (`outside_append_balanced`) or is a group of its own (`outside_append_bracketed`).
-/

namespace Brackets

/-- What an element is to the scanner. -/
inductive Kind
  | opening
  | closing
  | other
  deriving DecidableEq, Repr

variable {α : Type*} (kind : α → Kind)

/-- The depth behind one element. -/
def step (d : ℕ) (a : α) : ℕ :=
  match kind a with
  | .opening => d + 1
  | .closing => d - 1
  | .other => d

/-- The depth behind a text. -/
def depth (d : ℕ) (s : List α) : ℕ :=
  s.foldl (step kind) d

/-- What the scanner keeps of a text. -/
def outside : ℕ → List α → List α
  | _, [] => []
  | d, a :: s => if kind a = .other ∧ d = 0 then a :: outside d s else outside (step kind d a) s

variable {kind} {s t u : List α} {d : ℕ}

theorem step_le (d : ℕ) (a : α) : step kind d a ≤ d + 1 := by
  rw [step]
  split <;> omega

theorem step_of_other {a : α} (ha : kind a = .other) (d : ℕ) : step kind d a = d := by
  rw [step, ha]

@[simp] theorem depth_nil (d : ℕ) : depth kind d [] = d := rfl

@[simp] theorem depth_cons (d : ℕ) (a : α) (s : List α) :
    depth kind d (a :: s) = depth kind (step kind d a) s := rfl

@[simp] theorem depth_append (d : ℕ) (s t : List α) :
    depth kind d (s ++ t) = depth kind (depth kind d s) t :=
  List.foldl_append

/-- The depth grows by one at most with every element. -/
theorem depth_le (d : ℕ) (s : List α) : depth kind d s ≤ d + s.length := by
  induction s generalizing d with
  | nil => exact Nat.le_refl d
  | cons a s ih =>
    calc depth kind d (a :: s)
        = depth kind (step kind d a) s := depth_cons d a s
      _ ≤ step kind d a + s.length := ih _
      _ ≤ d + 1 + s.length := Nat.add_le_add_right (step_le d a) _
      _ = d + (a :: s).length := by rw [List.length_cons, Nat.add_right_comm, Nat.add_assoc]

@[simp] theorem outside_nil (d : ℕ) : outside kind d [] = [] := rfl

theorem outside_cons_of_other {a : α} (ha : kind a = .other) (s : List α) :
    outside kind 0 (a :: s) = a :: outside kind 0 s :=
  if_pos ⟨ha, rfl⟩

theorem outside_cons_of_ne {a : α} (h : kind a ≠ .other ∨ 0 < d) (s : List α) :
    outside kind d (a :: s) = outside kind (step kind d a) s := by
  refine if_neg fun hkept ↦ ?_
  rcases h with h | h
  · exact h hkept.1
  · exact Nat.pos_iff_ne_zero.1 h hkept.2

/-- **The depth is all that a text leaves behind.** -/
theorem outside_append (d : ℕ) (s t : List α) :
    outside kind d (s ++ t) = outside kind d s ++ outside kind (depth kind d s) t := by
  induction s generalizing d with
  | nil => rfl
  | cons a s ih =>
    rw [List.cons_append, outside, outside, ih, ih, depth_cons]
    split
    · next h =>
      rw [step_of_other h.1]
      rfl
    · rfl

/-- No bracket is kept. -/
theorem kind_of_mem_outside {a : α} (h : a ∈ outside kind d s) : kind a = .other := by
  induction s generalizing d with
  | nil => cases h
  | cons b s ih =>
    rw [outside] at h
    split at h
    · next hb =>
      rcases List.mem_cons.1 h with rfl | h
      · exact hb.1
      · exact ih h
    · exact ih h

/-- A text without brackets is kept. -/
theorem outside_eq_self (h : ∀ a ∈ s, kind a = .other) : outside kind 0 s = s := by
  induction s with
  | nil => rfl
  | cons a s ih =>
    obtain ⟨ha, hs⟩ := List.forall_mem_cons.1 h
    rw [outside_cons_of_other ha, ih hs]

/-- A change of the elements that changes no bracket is a change of what is kept. -/
theorem outside_map {f : α → α} (hf : ∀ a, kind (f a) = kind a) (d : ℕ) (s : List α) :
    outside kind d (s.map f) = (outside kind d s).map f := by
  induction s generalizing d with
  | nil => rfl
  | cons a s ih =>
    have hstep : step kind d (f a) = step kind d a := by rw [step, step, hf]
    rw [List.map_cons, outside, outside, hf, hstep, ih, ih]
    split
    · rfl
    · rfl

/-! ### Balanced texts -/

variable (kind) in
/-- Every bracket is closed by a later one, and none is closed that was not opened. -/
inductive Balanced : List α → Prop
  | nil : Balanced []
  | other {a : α} (ha : kind a = .other) : Balanced [a]
  | append {s t : List α} (hs : Balanced s) (ht : Balanced t) : Balanced (s ++ t)
  | group {o c : α} {s : List α} (ho : kind o = .opening) (hc : kind c = .closing)
      (hs : Balanced s) : Balanced (o :: (s ++ [c]))

variable (kind) in
/-- A balanced text with brackets around it. -/
def Bracketed (g : List α) : Prop :=
  ∃ o s c, kind o = .opening ∧ kind c = .closing ∧ Balanced kind s ∧ g = o :: (s ++ [c])

theorem Bracketed.balanced (h : Bracketed kind s) : Balanced kind s := by
  obtain ⟨o, s, c, ho, hc, hs, rfl⟩ := h
  exact .group ho hc hs

theorem Balanced.cons {a : α} (ha : kind a = .other) (hs : Balanced kind s) :
    Balanced kind (a :: s) :=
  .append (.other ha) hs

theorem Balanced.of_other (h : ∀ a ∈ s, kind a = .other) : Balanced kind s := by
  induction s with
  | nil => exact .nil
  | cons a s ih =>
    obtain ⟨ha, hs⟩ := List.forall_mem_cons.1 h
    exact (ih hs).cons ha

/-- A balanced text gives back the depth that it was given. -/
theorem Balanced.depth_eq (h : Balanced kind s) (d : ℕ) : depth kind d s = d := by
  induction h generalizing d with
  | nil => rfl
  | other ha => exact step_of_other ha d
  | append _ _ ihs iht => rw [depth_append, ihs, iht]
  | group ho hc _ ih =>
    rw [depth_cons, depth_append, ih, depth_cons, depth_nil, step, step, ho, hc]
    exact Nat.add_sub_cancel d 1

/-- Nothing is kept of brackets around a text of which nothing is kept inside. -/
theorem outside_group {o c : α} (ho : kind o = .opening) (hc : kind c = .closing)
    (hs : ∀ d, 0 < d → outside kind d s = []) (d : ℕ) : outside kind d (o :: (s ++ [c])) = [] := by
  have hopening : kind o ≠ .other := by simp [ho]
  have hclosing : kind c ≠ .other := by simp [hc]
  have hpos : 0 < step kind d o := by
    rw [step, ho]
    exact Nat.succ_pos d
  rw [outside_cons_of_ne (Or.inl hopening), outside_append, hs _ hpos,
    outside_cons_of_ne (Or.inl hclosing)]
  rfl

/-- Inside brackets nothing of a balanced text is kept: it never comes back to depth zero. -/
theorem Balanced.outside_eq_nil (h : Balanced kind s) (hd : 0 < d) : outside kind d s = [] := by
  induction h generalizing d with
  | nil => rfl
  | other ha =>
    rw [outside_cons_of_ne (Or.inr hd)]
    rfl
  | append hs _ ihs iht => rw [outside_append, ihs hd, hs.depth_eq, iht hd, List.append_nil]
  | group ho hc _ ih => exact outside_group ho hc (fun _ hpos ↦ ih hpos) d

/-- Of a group nothing is kept wherever it stands. -/
theorem Bracketed.outside_eq_nil (h : Bracketed kind s) (d : ℕ) : outside kind d s = [] := by
  obtain ⟨o, s, c, ho, hc, hs, rfl⟩ := h
  exact outside_group ho hc (fun _ hpos ↦ hs.outside_eq_nil hpos) d

/-- **A balanced text inside brackets leaves no trace.** -/
theorem outside_append_balanced (ht : Balanced kind t) (hd : 0 < depth kind d s) (u : List α) :
    outside kind d (s ++ (t ++ u)) = outside kind d (s ++ u) := by
  rw [outside_append, outside_append, outside_append d s u, ht.outside_eq_nil hd, ht.depth_eq,
    List.nil_append]

/-- **A group leaves no trace.** -/
theorem outside_append_bracketed (ht : Bracketed kind t) (d : ℕ) (s u : List α) :
    outside kind d (s ++ (t ++ u)) = outside kind d (s ++ u) := by
  rw [outside_append, outside_append, outside_append d s u, ht.outside_eq_nil,
    ht.balanced.depth_eq, List.nil_append]

end Brackets
