import Mathlib.Data.ENat.Basic

/-!
# Reading a stream of framed items

An append-only file holds items back to back, each in a self-delimiting frame, and possibly the
beginning of one more frame that was never finished. A reader walks forward and collects items
until a limit, the end of the data, or damage.

The reader of one frame is a parameter (`ReadStep` is what it answers), and so is the writer. What
the walk needs of the two is `LawfulFraming`: a whole frame reads back whatever follows it, and a
proper prefix of a frame reads as *short* — never as an item and never as damage. Under those laws
`readMany_encodeAll` computes the walk over any run of whole frames followed by a torn one.

A limit is an extended natural number; `⊤` is the limit that no list reaches. `takeUpTo` is
`List.take` at such a limit.
-/

universe u v w

variable {ε : Type u} {α : Type v} {β : Type w}

/-! ### Bounded prefixes -/

/-- The first `limit` elements of a list. -/
def takeUpTo (limit : ℕ∞) (l : List α) : List α :=
  if limit = ⊤ then l else l.take limit.toNat

@[simp] theorem takeUpTo_top (l : List α) : takeUpTo ⊤ l = l := by
  simp [takeUpTo]

@[simp] theorem takeUpTo_coe (n : ℕ) (l : List α) : takeUpTo (n : ℕ∞) l = l.take n := by
  simp [takeUpTo]

theorem takeUpTo_eq_self {limit : ℕ∞} {l : List α} (h : (l.length : ℕ∞) ≤ limit) :
    takeUpTo limit l = l := by
  induction limit using ENat.recTopCoe with
  | top => exact takeUpTo_top l
  | coe n => rw [takeUpTo_coe, List.take_of_length_le (Nat.cast_le.1 h)]

/-- Nothing is taken from a second list once the first has used the limit up. -/
theorem takeUpTo_append_of_full {limit : ℕ∞} {l : List α} (h : (l.length : ℕ∞) = limit)
    (r : List α) : takeUpTo limit (l ++ r) = l := by
  rw [← h, takeUpTo_coe, List.take_left]

theorem takeUpTo_prefix_self (limit : ℕ∞) (l : List α) : takeUpTo limit l <+: l := by
  induction limit using ENat.recTopCoe with
  | top => exact ⟨[], by rw [takeUpTo_top, List.append_nil]⟩
  | coe n => rw [takeUpTo_coe]; exact List.take_prefix n l

theorem takeUpTo_ne_nil {limit : ℕ∞} (hlimit : limit ≠ 0) {l : List α} (hl : l ≠ []) :
    takeUpTo limit l ≠ [] := by
  induction limit using ENat.recTopCoe with
  | top => rwa [takeUpTo_top]
  | coe n =>
    rw [takeUpTo_coe, Ne, List.take_eq_nil_iff, not_or]
    exact ⟨fun h ↦ hlimit (by rw [h]; rfl), hl⟩

theorem length_takeUpTo_le (limit : ℕ∞) (l : List α) :
    ((takeUpTo limit l).length : ℕ∞) ≤ limit := by
  induction limit using ENat.recTopCoe with
  | top => exact le_top
  | coe n => rw [takeUpTo_coe]; exact Nat.cast_le.2 (List.length_take_le n l)

/-- A bounded prefix may be taken piecewise. -/
theorem takeUpTo_takeUpTo_append (limit : ℕ∞) (l r : List α) :
    takeUpTo limit (takeUpTo limit l ++ r) = takeUpTo limit (l ++ r) := by
  induction limit using ENat.recTopCoe with
  | top => simp only [takeUpTo_top]
  | coe n =>
    simp only [takeUpTo_coe, List.take_append, List.take_take, Nat.min_self, List.length_take]
    rcases Nat.le_total n l.length with h | h
    · rw [Nat.min_eq_left h, Nat.sub_self, Nat.sub_eq_zero_of_le h]
    · rw [Nat.min_eq_right h]

/-! ### The walk -/

/-- What one attempt to read an item off the front of the data gives: nothing, because the data
ends inside the frame; damage; or an item and the data after its frame. -/
inductive ReadStep (ε : Type u) (α : Type v) (β : Type w)
  | short
  | damaged (e : ε)
  | item (a : α) (rest : List β)

/-- The walk: collect items behind `out` until `limit` items are held, the data ends, or a frame is
damaged. The first argument bounds the number of frames tried; the length of the data is always
enough, because a frame is never empty. -/
def readMany (read : List β → ReadStep ε α β) (limit : ℕ∞) :
    ℕ → List β → List α → List α × Option ε
  | 0, _, out => (out, none)
  | fuel + 1, bs, out =>
    if (out.length : ℕ∞) < limit then
      match read bs with
      | .short => (out, none)
      | .damaged e => (out, some e)
      | .item a rest => readMany read limit fuel rest (out ++ [a])
    else (out, none)

/-- Without a limit the walk only adds to what it was given. -/
theorem readMany_top (read : List β → ReadStep ε α β) (fuel : ℕ) :
    ∀ (bs : List β) (out : List α),
      (readMany read ⊤ fuel bs out).1 = out ++ (readMany read ⊤ fuel bs []).1 := by
  induction fuel with
  | zero => exact fun bs out ↦ (List.append_nil out).symm
  | succ fuel ih =>
    intro bs out
    simp only [readMany, ENat.natCast_lt_top, if_true]
    rcases read bs with - | e | ⟨a, rest⟩
    · exact (List.append_nil out).symm
    · exact (List.append_nil out).symm
    · dsimp only
      rw [ih rest (out ++ [a]), ih rest ([] ++ [a]), List.nil_append, List.append_assoc]

/-- The laws a frame reader and a frame writer owe each other, for the items that satisfy `ok`. -/
structure LawfulFraming (read : List β → ReadStep ε α β) (encode : α → List β)
    (ok : α → Prop) : Prop where
  /-- A frame is never empty. -/
  encode_ne_nil : ∀ {a : α}, ok a → encode a ≠ []
  /-- A whole frame reads back, whatever follows it. -/
  read_encode : ∀ {a : α}, ok a → ∀ rest : List β, read (encode a ++ rest) = .item a rest
  /-- A frame that was cut short reads as short. -/
  read_torn : ∀ {a : α} {t : List β}, ok a → t <+: encode a → t ≠ encode a → read t = .short

/-- The beginning of a frame that was never finished. Nothing at all counts as one. -/
def IsTorn (encode : α → List β) (ok : α → Prop) (t : List β) : Prop :=
  t = [] ∨ ∃ a, ok a ∧ t <+: encode a ∧ t ≠ encode a

theorem isTorn_nil (encode : α → List β) (ok : α → Prop) : IsTorn encode ok [] :=
  Or.inl rfl

/-- **The first bytes of a run of frames** are the frames that end within them, and the beginning of
the next. -/
theorem exists_take_flatMap (encode : α → List β) {ok : α → Prop} {xs : List α} :
    ∀ c : ℕ, (∀ a ∈ xs, ok a) →
      ∃ k ≤ xs.length, ∃ t, IsTorn encode ok t ∧
        (xs.flatMap encode).take c = (xs.take k).flatMap encode ++ t ∧
        ∀ i < xs.length, i < k ↔ ((xs.take (i + 1)).flatMap encode).length ≤ c := by
  induction xs with
  | nil =>
    intro c _
    exact ⟨0, le_refl 0, [], isTorn_nil encode ok, by simp, by simp⟩
  | cons a xs ih =>
    intro c hok
    have hlength : ∀ i, (((a :: xs).take (i + 1)).flatMap encode).length =
        (encode a).length + ((xs.take i).flatMap encode).length := fun i ↦ by
      rw [List.take_succ_cons, List.flatMap_cons, List.length_append]
    rcases Nat.lt_or_ge c (encode a).length with hlt | hge
    · -- the cut is inside the first frame
      refine ⟨0, Nat.zero_le _, (encode a).take c, ?_, ?_, fun i _ ↦ ?_⟩
      · refine Or.inr ⟨a, hok a List.mem_cons_self, List.take_prefix c _, fun heq ↦ ?_⟩
        have hlen := congrArg List.length heq
        rw [List.length_take] at hlen
        omega
      · rw [List.flatMap_cons, List.take_append_of_le_length hlt.le, List.take_zero,
          List.flatMap_nil, List.nil_append]
      · rw [hlength]
        omega
    · obtain ⟨k, hk, t, ht, htake, hwithin⟩ :=
        ih (c - (encode a).length) fun b hb ↦ hok b (List.mem_cons_of_mem a hb)
      refine ⟨k + 1, Nat.succ_le_succ hk, t, ht, ?_, fun i hi ↦ ?_⟩
      · rw [List.flatMap_cons, List.take_append, List.take_of_length_le hge, htake,
          List.take_succ_cons, List.flatMap_cons, List.append_assoc]
      · rw [hlength]
        cases i with
        | zero => simp [hge]
        | succ i =>
          have := hwithin i (Nat.lt_of_succ_lt_succ hi)
          omega

namespace LawfulFraming

variable {read : List β → ReadStep ε α β} {encode : α → List β} {ok : α → Prop}

/-- **The walk over whole frames and a torn one** returns the items of the whole frames, up to the
limit, and reports no damage. -/
theorem readMany_encodeAll (F : LawfulFraming read encode ok) (hnil : read [] = .short)
    {limit : ℕ∞} {t : List β} (ht : IsTorn encode ok t) {xs : List α} :
    ∀ {fuel : ℕ} {out : List α}, (∀ a ∈ xs, ok a) → (out.length : ℕ∞) ≤ limit →
      (xs.flatMap encode ++ t).length ≤ fuel →
      readMany read limit fuel (xs.flatMap encode ++ t) out =
        (takeUpTo limit (out ++ xs), none) := by
  have htorn : read t = .short := by
    rcases ht with rfl | ⟨a, ha, hpre, hne⟩
    · exact hnil
    · exact F.read_torn ha hpre hne
  induction xs with
  | nil =>
    intro fuel out _ hout _
    rw [List.append_nil, takeUpTo_eq_self hout, List.flatMap_nil, List.nil_append]
    cases fuel with
    | zero => rfl
    | succ fuel => simp only [readMany, htorn, ite_self]
  | cons a xs ih =>
    intro fuel out hok hout hfuel
    have ha : ok a := hok a List.mem_cons_self
    have hpos := List.length_pos_iff.2 (F.encode_ne_nil ha)
    rw [List.flatMap_cons, List.append_assoc] at hfuel ⊢
    rw [List.length_append] at hfuel
    cases fuel with
    | zero => omega
    | succ fuel =>
      simp only [readMany, F.read_encode ha]
      split
      · next hlt =>
        rw [ih (fun b hb ↦ hok b (List.mem_cons_of_mem a hb)) ?_ (by omega), List.append_assoc]
        · rfl
        · rw [List.length_append, List.length_singleton]
          exact_mod_cast Order.add_one_le_of_lt hlt
      · next hge => rw [takeUpTo_append_of_full (le_antisymm hout (not_lt.1 hge))]

/-- **The walk over the first bytes of a run of frames** returns the items of the frames that end
within them, and reports no damage. -/
theorem readMany_take (F : LawfulFraming read encode ok) (hnil : read [] = .short) {xs : List α}
    (hok : ∀ a ∈ xs, ok a) (c : ℕ) :
    ∃ k ≤ xs.length,
      readMany read ⊤ ((xs.flatMap encode).take c).length ((xs.flatMap encode).take c) [] =
        (xs.take k, none) ∧
      ∀ i < xs.length, i < k ↔ ((xs.take (i + 1)).flatMap encode).length ≤ c := by
  obtain ⟨k, hk, t, ht, htake, hwithin⟩ := exists_take_flatMap encode c hok
  refine ⟨k, hk, ?_, hwithin⟩
  rw [htake, F.readMany_encodeAll hnil ht (fun a ha ↦ hok a (List.mem_of_mem_take ha)) (by simp)
    (le_refl _), takeUpTo_top, List.nil_append]

/-- Without a limit, whole frames are read off whatever follows them. -/
theorem readMany_append (F : LawfulFraming read encode ok) {t : List β} {xs : List α} :
    ∀ {fuel : ℕ} (out : List α), (∀ a ∈ xs, ok a) → (xs.flatMap encode ++ t).length ≤ fuel →
      ∃ fuel', t.length ≤ fuel' ∧
        readMany read ⊤ fuel (xs.flatMap encode ++ t) out =
          readMany read ⊤ fuel' t (out ++ xs) := by
  induction xs with
  | nil =>
    intro fuel out _ hfuel
    refine ⟨fuel, hfuel, ?_⟩
    rw [List.append_nil, List.flatMap_nil, List.nil_append]
  | cons a xs ih =>
    intro fuel out hok hfuel
    have ha : ok a := hok a List.mem_cons_self
    have hpos := List.length_pos_iff.2 (F.encode_ne_nil ha)
    rw [List.flatMap_cons, List.append_assoc, List.length_append] at hfuel
    cases fuel with
    | zero => omega
    | succ fuel =>
      obtain ⟨fuel', hfuel', heq⟩ := ih (out ++ [a])
        (fun b hb ↦ hok b (List.mem_cons_of_mem a hb))
        (by omega : (xs.flatMap encode ++ t).length ≤ fuel)
      refine ⟨fuel', hfuel', ?_⟩
      rw [List.flatMap_cons, List.append_assoc]
      simp only [readMany, ENat.natCast_lt_top, if_true, F.read_encode ha]
      rw [heq, List.append_assoc, List.singleton_append]

/-- The walk stops at a damaged frame behind whole ones. -/
theorem readMany_damaged (F : LawfulFraming read encode ok) {t : List β} {xs : List α} {e : ε}
    (hok : ∀ a ∈ xs, ok a) (ht : t ≠ []) (hread : read t = .damaged e) :
    readMany read ⊤ (xs.flatMap encode ++ t).length (xs.flatMap encode ++ t) [] =
      (xs, some e) := by
  obtain ⟨fuel, hfuel, heq⟩ := F.readMany_append (t := t) [] hok (le_refl _)
  have hpos := List.length_pos_iff.2 ht
  obtain ⟨fuel, rfl⟩ := Nat.exists_eq_succ_of_ne_zero (hpos.trans_le hfuel).ne'
  rw [heq, List.nil_append]
  simp only [readMany, ENat.natCast_lt_top, if_true, hread]

end LawfulFraming
