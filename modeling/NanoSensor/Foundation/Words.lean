import Mathlib.Data.List.TakeWhile

/-!
# Cutting off words from behind

A loop that cuts a text at its last delimiter, looks up what is left, and goes on with that until
something is found. `searchCuts_eq_some_iff` says what it finds: of all the beginnings that end in
front of a delimiter, the longest one that the look-up knows. In a text of joined words those are
the proper beginnings of the list of words (`cuts_intercalate_iff`).

`splitFirst` cuts a text at the first place of a word, from the front.
-/

namespace Delimited

variable {α : Type*} [DecidableEq α] (d : α) {β : Type*}

/-- What stands in front of the last delimiter: `s.substr(0, s.rfind(d))`, if there is one. -/
def cut (s : List α) : Option (List α) :=
  match s.reverse.dropWhile (· ≠ d) with
  | [] => none
  | _ :: front => some front.reverse

/-- `w` stands in front of one of the delimiters of `s`. -/
def Cuts (w s : List α) : Prop :=
  ∃ rest, s = w ++ d :: rest

variable {d} {s w : List α}

theorem exists_of_cut (h : cut d s = some w) : ∃ rest, s = w ++ d :: rest ∧ d ∉ rest := by
  rw [cut] at h
  split at h
  · cases h
  · next x front hdrop =>
    obtain rfl : front.reverse = w := Option.some.inj h
    have hhead : decide (x ≠ d) = false := by
      have hnot := List.head_dropWhile_not (fun x ↦ decide (x ≠ d)) (l := s.reverse)
        (by rw [hdrop]; exact List.cons_ne_nil x front)
      simpa only [hdrop, List.head_cons] using hnot
    obtain rfl : x = d := by simpa using hhead
    have hs : s = (x :: front).reverse ++ (s.reverse.takeWhile (· ≠ x)).reverse := by
      rw [← hdrop, ← List.reverse_append, List.takeWhile_append_dropWhile, List.reverse_reverse]
    refine ⟨_, hs.trans (by rw [List.reverse_cons, List.append_assoc]; rfl), fun hmem ↦ ?_⟩
    have hne := List.mem_takeWhile_imp (List.mem_reverse.1 hmem)
    simp at hne

theorem not_mem_of_cut (h : cut d s = none) : d ∉ s := by
  rw [cut] at h
  split at h
  · next hdrop =>
    intro hmem
    have hne := List.dropWhile_eq_nil_iff.1 hdrop d (List.mem_reverse.2 hmem)
    simp at hne
  · cases h

theorem length_lt_of_cut (h : cut d s = some w) : w.length < s.length := by
  obtain ⟨rest, rfl, -⟩ := exists_of_cut h
  simp

variable (d) in
/-- The loop. -/
def searchCuts (lookup : List α → Option β) (s : List α) : Option β :=
  match _h : cut d s with
  | none => none
  | some w =>
    match lookup w with
    | some b => some b
    | none => searchCuts lookup w
termination_by s.length
decreasing_by exact length_lt_of_cut ‹_›

/-- In front of one delimiter: in front of the last, or of one before it. -/
theorem cuts_iff_of_cut (h : cut d s = some w) {v : List α} : Cuts d v s ↔ v = w ∨ Cuts d v w := by
  obtain ⟨rest, rfl, hrest⟩ := exists_of_cut h
  constructor
  · rintro ⟨rest', heq⟩
    rcases List.append_eq_append_iff.1 heq with ⟨l, rfl, hl⟩ | ⟨l, rfl, hl⟩
    · rcases l with - | ⟨x, l⟩
      · exact Or.inl (List.append_nil w)
      · obtain ⟨-, rfl⟩ := List.cons.inj hl
        exact absurd (List.mem_append_right l List.mem_cons_self) hrest
    · rcases l with - | ⟨x, l⟩
      · exact Or.inl (List.append_nil v).symm
      · obtain ⟨rfl, -⟩ := List.cons.inj hl
        exact Or.inr ⟨l, rfl⟩
  · rintro (rfl | ⟨rest', rfl⟩)
    · exact ⟨rest, rfl⟩
    · exact ⟨rest' ++ d :: rest, by simp⟩

omit [DecidableEq α] in
theorem Cuts.length_lt (h : Cuts d w s) : w.length < s.length := by
  obtain ⟨rest, rfl⟩ := h
  simp

omit [DecidableEq α] in
theorem Cuts.isPrefix (h : Cuts d w s) : w <+: s := by
  obtain ⟨rest, rfl⟩ := h
  exact List.prefix_append w _

omit [DecidableEq α] in
/-- In front of the first delimiter, or of one behind it. -/
theorem cuts_append_cons_iff {v front back : List α} (h : d ∉ front) :
    Cuts d v (front ++ d :: back) ↔ v = front ∨ ∃ v', v = front ++ d :: v' ∧ Cuts d v' back := by
  constructor
  · rintro ⟨rest, heq⟩
    rcases List.append_eq_append_iff.1 heq with ⟨l, rfl, hl⟩ | ⟨l, rfl, hl⟩
    · rcases l with - | ⟨x, l⟩
      · exact Or.inl (List.append_nil front)
      · obtain ⟨rfl, rfl⟩ := List.cons.inj hl
        exact Or.inr ⟨l, rfl, rest, rfl⟩
    · rcases l with - | ⟨x, l⟩
      · exact Or.inl (List.append_nil v).symm
      · obtain ⟨rfl, -⟩ := List.cons.inj hl
        exact absurd (List.mem_append_right v List.mem_cons_self) h
  · rintro (rfl | ⟨v', rfl, rest, rfl⟩)
    · exact ⟨back, rfl⟩
    · exact ⟨rest, by simp⟩

omit [DecidableEq α] in
/-- **The cuts of joined words** are their proper beginnings, joined. -/
theorem cuts_intercalate_iff {v : List α} {ws : List (List α)} (h : ∀ w ∈ ws, d ∉ w) :
    Cuts d v ([d].intercalate ws) ↔
      ∃ k, 0 < k ∧ k < ws.length ∧ v = [d].intercalate (ws.take k) := by
  induction ws generalizing v with
  | nil => exact iff_of_false (fun ⟨rest, heq⟩ ↦ by simp at heq) (fun ⟨k, _, hk, _⟩ ↦ by simp at hk)
  | cons w ws ih =>
    obtain ⟨hw, hws⟩ := List.forall_mem_cons.1 h
    rcases ws with - | ⟨w', ws⟩
    · refine iff_of_false (fun ⟨rest, heq⟩ ↦ hw ?_) (fun ⟨k, h0, hk, _⟩ ↦ ?_)
      · rw [List.intercalate_singleton] at heq
        simp [heq]
      · rw [List.length_singleton] at hk
        omega
    · rw [List.intercalate_cons_cons, List.append_assoc, List.singleton_append,
        cuts_append_cons_iff hw]
      constructor
      · rintro (rfl | ⟨v', rfl, hv'⟩)
        · exact ⟨1, by simp⟩
        · obtain ⟨k, h0, hk, rfl⟩ := (ih hws).1 hv'
          refine ⟨k + 1, by omega, by simpa using hk, ?_⟩
          obtain ⟨k, rfl⟩ := Nat.exists_eq_add_one_of_ne_zero h0.ne'
          simp [List.intercalate_cons_cons]
      · rintro ⟨k, h0, hk, rfl⟩
        obtain ⟨k, rfl⟩ := Nat.exists_eq_add_one_of_ne_zero h0.ne'
        rcases k with - | k
        · left
          simp
        · refine Or.inr ⟨_, ?_, (ih hws).2 ⟨k + 1, by omega, by simpa using hk, rfl⟩⟩
          simp [List.intercalate_cons_cons]

theorem not_cuts_of_cut (h : cut d s = none) : ¬ Cuts d w s := by
  rintro ⟨rest, rfl⟩
  exact not_mem_of_cut h (List.mem_append_right w List.mem_cons_self)

/-- **The loop finds the longest beginning that is known.** -/
theorem searchCuts_eq_some_iff (lookup : List α → Option β) (s : List α) (b : β) :
    searchCuts d lookup s = some b ↔
      ∃ w, Cuts d w s ∧ lookup w = some b ∧
        ∀ v, Cuts d v s → w.length < v.length → lookup v = none := by
  fun_induction searchCuts d lookup s with
  | case1 s hcut => exact iff_of_false nofun fun ⟨w, hw, _⟩ ↦ not_cuts_of_cut hcut hw
  | case2 s w hcut c hc =>
    rw [Option.some_inj]
    constructor
    · rintro rfl
      refine ⟨w, (cuts_iff_of_cut hcut).2 (Or.inl rfl), hc, fun v hv hlt ↦ ?_⟩
      rcases (cuts_iff_of_cut hcut).1 hv with rfl | hv
      · exact absurd hlt (Nat.lt_irrefl _)
      · exact absurd hv.length_lt (Nat.lt_asymm hlt)
    · rintro ⟨v, hv, hb, hlongest⟩
      rcases (cuts_iff_of_cut hcut).1 hv with rfl | hv
      · exact Option.some.inj (hc.symm.trans hb)
      · have hnone := hlongest w ((cuts_iff_of_cut hcut).2 (Or.inl rfl)) hv.length_lt
        rw [hc] at hnone
        cases hnone
  | case3 s w hcut hnone ih =>
    rw [ih]
    constructor
    · rintro ⟨v, hv, hb, hlongest⟩
      refine ⟨v, (cuts_iff_of_cut hcut).2 (Or.inr hv), hb, fun u hu hlt ↦ ?_⟩
      rcases (cuts_iff_of_cut hcut).1 hu with rfl | hu
      · exact hnone
      · exact hlongest u hu hlt
    · rintro ⟨v, hv, hb, hlongest⟩
      rcases (cuts_iff_of_cut hcut).1 hv with rfl | hv
      · rw [hnone] at hb
        cases hb
      · exact ⟨v, hv, hb, fun u hu hlt ↦ hlongest u ((cuts_iff_of_cut hcut).2 (Or.inr hu)) hlt⟩

theorem cut_append_cons {rest : List α} (h : d ∉ rest) : cut d (w ++ d :: rest) = some w := by
  rcases hcut : cut d (w ++ d :: rest) with - | v
  · exact absurd (List.mem_append_right w List.mem_cons_self) (not_mem_of_cut hcut)
  · -- `w` is in front of a delimiter, and there is none behind it
    rcases (cuts_iff_of_cut hcut).1 ⟨rest, rfl⟩ with rfl | hw
    · rfl
    · obtain ⟨back, rfl⟩ := hw
      obtain ⟨rest', heq, -⟩ := exists_of_cut hcut
      rw [List.append_assoc, List.append_cancel_left_eq] at heq
      obtain ⟨-, rfl⟩ := List.cons.inj heq
      exact absurd (List.mem_append_right back List.mem_cons_self) h

/-- **The last delimiter tells where a text is cut**, if there is none behind it on either side. -/
theorem append_cons_inj {v back rest : List α} (hback : d ∉ back) (hrest : d ∉ rest)
    (h : v ++ d :: back = w ++ d :: rest) : v = w ∧ back = rest := by
  have hcut : cut d (v ++ d :: back) = some v := cut_append_cons hback
  rw [h, cut_append_cons hrest] at hcut
  obtain rfl := Option.some.inj hcut
  exact ⟨rfl, (List.cons.inj (List.append_cancel_left h)).2⟩

/-! ### The first place of a word -/

/-- What stands in front of the first place of `word` and what stands behind it: `s.find(word)`, if
there is one. -/
def splitFirst (word : List α) : List α → Option (List α × List α)
  | [] => if word = [] then some ([], []) else none
  | a :: s =>
    if word <+: a :: s then some ([], (a :: s).drop word.length)
    else (splitFirst word s).map fun split ↦ (a :: split.1, split.2)

theorem eq_of_splitFirst {word front back : List α} (h : splitFirst word s = some (front, back)) :
    s = front ++ (word ++ back) := by
  induction s generalizing front with
  | nil =>
    rw [splitFirst] at h
    split at h
    · next hword =>
      obtain ⟨rfl, rfl⟩ := Prod.mk.inj (Option.some.inj h)
      rw [hword]
      rfl
    · cases h
  | cons a s ih =>
    rw [splitFirst] at h
    split at h
    · next hword =>
      obtain ⟨rfl, rfl⟩ := Prod.mk.inj (Option.some.inj h)
      exact (List.prefix_iff_eq_append.1 hword).symm
    · obtain ⟨⟨front', back'⟩, hsplit, heq⟩ := Option.map_eq_some_iff.1 h
      obtain ⟨rfl, rfl⟩ := Prod.mk.inj heq
      rw [ih hsplit, List.cons_append]

end Delimited
