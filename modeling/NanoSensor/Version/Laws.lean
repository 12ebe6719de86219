import NanoSensor.Foundation.Runs
import NanoSensor.Version.Compare

/-!
# What may be appended to a version, and what may be changed in it

Two laws of `version_compare` that its documentation gives by example.

The **suffix law** (`versionCompare_suffix`): behind a separator, or a `~`, what is appended decides
by its first token whether the longer version is the smaller one or the greater one. It rests on two
facts about where a text is cut. Tokens never straddle a boundary that ends a run
(`tokenize_append`), and a byte that is neither a digit nor a colon ends the epoch, whatever colons
come later (`stripEpoch_append`).

The **equality law** (`versionCompare_eq_zero_iff`): two versions compare equal exactly when their
epochs and their tokens are the same. So whatever keeps the tokens — another separator, more leading
zeros, another letter case — is invisible to every comparison.
-/

namespace NanoSensor

open Bytes

namespace Version

/-! ### Tokens at a boundary -/

/-- `.`, `-`, `_` and `+`. -/
def separators : List UInt8 :=
  [0x2E, 0x2D, 0x5F, 0x2B]

/-- No run of digits and no run of letters goes on across the boundary of `x` and `y`. -/
def Breaks (x y : Bytes) : Prop :=
  RunEnds isDigit x y ∧ RunEnds isAlpha x y

theorem breaks_of_head {d : UInt8} (hdigit : isDigit d = false) (halpha : isAlpha d = false)
    (x y : Bytes) : Breaks x (d :: y) :=
  ⟨runEnds_of_head hdigit x y, runEnds_of_head halpha x y⟩

theorem tokenize_tilde (rest : Bytes) : tokenize (0x7E :: rest) = .tilde :: tokenize rest := by
  rw [tokenize, if_pos rfl]

theorem tokenize_digit {c : UInt8} (hc : isDigit c = true) (rest : Bytes) :
    tokenize (c :: rest) =
      .numeric (numericValue (c :: rest.takeWhile isDigit)) ::
        tokenize (rest.dropWhile isDigit) := by
  have htilde : c ≠ 0x7E := by
    rintro rfl
    cases hc
  rw [tokenize, if_neg htilde, if_pos hc]

theorem isDigit_eq_false_of_isAlpha {c : UInt8} (hc : isAlpha c = true) : isDigit c = false := by
  simp only [isAlpha, Bool.or_eq_true, Bool.and_eq_true, decide_eq_true_eq,
    UInt8.le_iff_toNat_le, UInt8.reduceToNat] at hc
  simp only [isDigit, Bool.and_eq_false_iff, decide_eq_false_iff_not, UInt8.le_iff_toNat_le,
    UInt8.reduceToNat]
  omega

theorem tokenize_alpha {c : UInt8} (hc : isAlpha c = true) (rest : Bytes) :
    tokenize (c :: rest) =
      .alpha ((c :: rest.takeWhile isAlpha).map lower) :: tokenize (rest.dropWhile isAlpha) := by
  have htilde : c ≠ 0x7E := by
    rintro rfl
    cases hc
  rw [tokenize, if_neg htilde, if_neg (by simp [isDigit_eq_false_of_isAlpha hc]), if_pos hc]

/-- Every other byte is only a boundary. -/
theorem tokenize_other {c : UInt8} (htilde : c ≠ 0x7E) (hdigit : isDigit c = false)
    (halpha : isAlpha c = false) (rest : Bytes) : tokenize (c :: rest) = tokenize rest := by
  rw [tokenize, if_neg htilde, if_neg (by simp [hdigit]), if_neg (by simp [halpha])]

theorem of_mem_separators : ∀ c ∈ separators,
    c ≠ 0x7E ∧ isDigit c = false ∧ isAlpha c = false ∧ c ≠ 0x3A := by
  decide +kernel

theorem tokenize_separator {c : UInt8} (hc : c ∈ separators) (rest : Bytes) :
    tokenize (c :: rest) = tokenize rest := by
  obtain ⟨htilde, hdigit, halpha, -⟩ := of_mem_separators c hc
  exact tokenize_other htilde hdigit halpha rest

/-- **Tokens never straddle a boundary that ends a run.** -/
theorem tokenize_append {x y : Bytes} (h : Breaks x y) :
    tokenize (x ++ y) = tokenize x ++ tokenize y := by
  fun_induction tokenize x with
  | case1 => rfl
  | case2 rest ih =>
    rw [List.cons_append, tokenize_tilde, ih ⟨h.1.of_cons, h.2.of_cons⟩, List.cons_append]
  | case3 c rest htilde hc ih =>
    -- the run of digits ends where it ended without `y`
    rw [List.cons_append, tokenize_digit hc, h.1.takeWhile_append hc, h.1.dropWhile_append hc,
      ih ⟨h.1.of_cons.of_dropWhile, h.2.of_cons.of_dropWhile⟩, List.cons_append]
  | case4 c rest htilde hdigit hc ih =>
    rw [List.cons_append, tokenize_alpha hc, h.2.takeWhile_append hc, h.2.dropWhile_append hc,
      ih ⟨h.1.of_cons.of_dropWhile, h.2.of_cons.of_dropWhile⟩, List.cons_append]
  | case5 c rest htilde hdigit halpha ih =>
    rw [List.cons_append, tokenize_other htilde (by simpa using hdigit) (by simpa using halpha),
      ih ⟨h.1.of_cons, h.2.of_cons⟩]

/-! ### The epoch of a longer version -/

/-- With no colon there is no epoch. -/
theorem stripEpoch_of_not_mem {v : Bytes} (h : 0x3A ∉ v) : stripEpoch v = (0, v) := by
  have hall : v.takeWhile (· ≠ 0x3A) = v :=
    List.takeWhile_eq_self_iff.2 fun c hc ↦ decide_eq_true fun heq ↦ h (heq ▸ hc)
  rw [stripEpoch, hall, if_pos rfl]

/-- What stands in front of the first colon is the epoch, or there is none. -/
theorem stripEpoch_append_colon {front : Bytes} (h : 0x3A ∉ front) (rest : Bytes) :
    stripEpoch (front ++ 0x3A :: rest) =
      if front.all isDigit then (front.foldl pushDigit 0, rest)
      else (0, front ++ 0x3A :: rest) := by
  have hfront : (front ++ 0x3A :: rest).takeWhile (· ≠ 0x3A) = front := by
    have hne : ∀ c ∈ front, decide (c ≠ 0x3A) = true := by
      intro c hc
      exact decide_eq_true fun heq ↦ h (heq ▸ hc)
    rw [List.takeWhile_append_of_pos hne]
    simp
  have hlen : front.length ≠ (front ++ 0x3A :: rest).length := by simp
  have hdrop : (front ++ 0x3A :: rest).drop (front.length + 1) = rest := by simp
  rw [stripEpoch, hfront, if_neg hlen, hdrop]

/-- A text splits at its first colon. -/
theorem exists_append_colon {v : Bytes} (h : 0x3A ∈ v) :
    ∃ front rest, 0x3A ∉ front ∧ v = front ++ 0x3A :: rest := by
  obtain ⟨front, rest, rfl, hfront⟩ := List.eq_append_cons_of_mem h
  exact ⟨front, rest, hfront, rfl⟩

/-- **A later colon does not change the epoch**: what follows a byte that cannot be in an epoch
stays where it is. -/
theorem stripEpoch_append {d : UInt8} (hdigit : isDigit d = false) (hcolon : d ≠ 0x3A)
    (v rest : Bytes) :
    stripEpoch (v ++ d :: rest) = ((stripEpoch v).1, (stripEpoch v).2 ++ d :: rest) := by
  by_cases hv : 0x3A ∈ v
  · obtain ⟨front, back, hfront, rfl⟩ := exists_append_colon hv
    rw [List.append_assoc, List.cons_append, stripEpoch_append_colon hfront,
      stripEpoch_append_colon hfront]
    split
    · rfl
    · simp
  · rw [stripEpoch_of_not_mem hv]
    by_cases hrest : 0x3A ∈ rest
    · -- the first colon comes behind `d`, so what stands in front of it is not a number
      obtain ⟨front, back, hfront, rfl⟩ := exists_append_colon hrest
      have hsplit : v ++ d :: (front ++ 0x3A :: back) = (v ++ d :: front) ++ 0x3A :: back := by
        simp
      have hnot : 0x3A ∉ v ++ d :: front := by simp [hv, hfront, hcolon.symm]
      have hall : ¬ (v ++ d :: front).all isDigit = true := by simp [hdigit]
      rw [hsplit, stripEpoch_append_colon hnot, if_neg hall]
    · exact stripEpoch_of_not_mem (by simp [hv, hrest, hcolon.symm])

/-! ### The suffix law -/

/-- The words that the documentation lists as pre-release words. -/
def markers : List Bytes :=
  ["rc", "alpha", "beta", "pre", "dev", "preview", "snapshot", "nightly"].map ofString

theorem isAlpha_of_mem_markers : ∀ m ∈ markers, m ≠ [] ∧ ∀ c ∈ m, isAlpha c = true := by
  decide +kernel

/-- The ninth word of the list, `a1`, is never a token: letters and digits are cut apart. -/
theorem isPrereleaseWord_of_isAlpha {word : Bytes} (h : ∀ c ∈ word, isAlpha c = true) :
    isPrereleaseWord word = decide (word ∈ markers) := by
  have hwords : prereleaseWords = markers ++ [ofString "a1"] := by decide
  have hne : word ≠ ofString "a1" := by
    rintro rfl
    exact absurd (h 0x31 (by decide)) (by decide)
  rw [isPrereleaseWord, hwords, ← List.elem_eq_contains]
  simp [hne]

theorem isAlpha_of_map_lower {word : Bytes} (h : word.map lower ∈ markers) :
    word ≠ [] ∧ ∀ c ∈ word, isAlpha c = true := by
  obtain ⟨hne, hall⟩ := isAlpha_of_mem_markers _ h
  refine ⟨fun hnil ↦ hne (by rw [hnil]; rfl), fun c hc ↦ ?_⟩
  rw [← isAlpha_lower]
  exact hall _ (List.mem_map_of_mem hc)

/-- A whole word is one token. -/
theorem tokenize_word {word w : Bytes} (hne : word ≠ []) (hword : ∀ c ∈ word, isAlpha c = true)
    (hw : ∀ c ∈ w.head?, isAlpha c = false) :
    tokenize (word ++ w) = .alpha (word.map lower) :: tokenize w := by
  rcases word with - | ⟨c, word⟩
  · exact absurd rfl hne
  · obtain ⟨hc, hword⟩ := List.forall_mem_cons.1 hword
    rw [List.cons_append, tokenize_alpha hc, List.takeWhile_append_of_pos hword,
      List.dropWhile_append_of_pos hword, takeWhile_eq_nil_of_head hw,
      dropWhile_eq_self_of_head hw, List.append_nil]

/-- Behind a byte that is in no epoch and no run, the first token decides. -/
theorem versionCompare_append {d : UInt8} (hdigit : isDigit d = false) (halpha : isAlpha d = false)
    (hcolon : d ≠ 0x3A) (v rest : Bytes) {t : Token} {ts : List Token}
    (htokens : tokenize (d :: rest) = t :: ts) :
    versionCompare (v ++ d :: rest) v = if isEarly t then -1 else 1 := by
  have hstrip := stripEpoch_append hdigit hcolon v rest
  -- the epoch is that of `v`, so the tokens of `v` are a proper beginning of those of the whole
  have hlong : tokens (v ++ d :: rest) = tokens v ++ t :: ts := by
    rw [tokens, hstrip, tokenize_append (breaks_of_head hdigit halpha _ _), htokens, tokens]
  rw [versionCompare_of_epoch_eq (by rw [hstrip]), hlong]
  exact cmpLists_append_self lawfulCmp_cmpToken _ t ts

theorem versionCompare_append_separator {s : UInt8} (hs : s ∈ separators) (v : Bytes) {rest : Bytes}
    {t : Token} {ts : List Token} (htokens : tokenize rest = t :: ts) :
    versionCompare (v ++ s :: rest) v = if isEarly t then -1 else 1 := by
  obtain ⟨-, hdigit, halpha, hcolon⟩ := of_mem_separators s hs
  exact versionCompare_append hdigit halpha hcolon v rest (by rwa [tokenize_separator hs])

theorem versionCompare_append_word {s : UInt8} (hs : s ∈ separators) (v : Bytes) {word w : Bytes}
    (hne : word ≠ []) (hword : ∀ c ∈ word, isAlpha c = true)
    (hw : ∀ c ∈ w.head?, isAlpha c = false) :
    versionCompare (v ++ s :: (word ++ w)) v =
      if word.map lower ∈ markers then -1 else 1 := by
  have hlower : ∀ c ∈ word.map lower, isAlpha c = true := by
    intro c hc
    obtain ⟨b, hb, rfl⟩ := List.mem_map.1 hc
    rw [isAlpha_lower, hword b hb]
  rw [versionCompare_append_separator hs v (tokenize_word hne hword hw)]
  show (if isPrereleaseWord (word.map lower) then (-1 : ℤ) else 1) = _
  rw [isPrereleaseWord_of_isAlpha hlower]
  simp only [decide_eq_true_eq]

/-- **The suffix law.** A `~` and anything behind it make a version smaller. Behind a separator, a
pre-release word in any letter case makes it smaller, and a number or any other word greater. -/
theorem versionCompare_suffix (v w : Bytes) :
    versionCompare (v ++ 0x7E :: w) v < 0 ∧
      ∀ s ∈ separators,
        (∀ word : Bytes, word.map lower ∈ markers → (∀ c ∈ w.head?, isAlpha c = false) →
          versionCompare (v ++ s :: (word ++ w)) v < 0) ∧
        (∀ digits : Bytes, digits ≠ [] → (∀ d ∈ digits, isDigit d = true) →
          0 < versionCompare (v ++ s :: (digits ++ w)) v) ∧
        ∀ word : Bytes, word ≠ [] → (∀ c ∈ word, isAlpha c = true) → word.map lower ∉ markers →
          (∀ c ∈ w.head?, isAlpha c = false) →
          0 < versionCompare (v ++ s :: (word ++ w)) v := by
  refine ⟨?_, fun s hs ↦ ⟨fun word hword hw ↦ ?_, fun digits hne hdigits ↦ ?_,
    fun word hne hword hnot hw ↦ ?_⟩⟩
  · rw [versionCompare_append (by decide) (by decide) (by decide) v w (tokenize_tilde w)]
    decide
  · obtain ⟨hne, hall⟩ := isAlpha_of_map_lower hword
    rw [versionCompare_append_word hs v hne hall hw, if_pos hword]
    decide
  · -- how long the run of digits is does not matter, as a number is never early
    rcases digits with - | ⟨d, digits⟩
    · exact absurd rfl hne
    · rw [List.cons_append, versionCompare_append_separator hs v
        (tokenize_digit (hdigits d List.mem_cons_self) _)]
      exact Int.one_pos
  · rw [versionCompare_append_word hs v hne hword hw, if_neg hnot]
    decide

/-- `1:2.0-RC1:x` is below `1:2.0`, and `1:2.0-p1:x` is above it. -/
theorem versionCompare_suffix_release :
    versionCompare (ofString "1:2.0" ++ 0x2D :: (ofString "RC" ++ ofString "1:x"))
        (ofString "1:2.0") < 0 ∧
      0 < versionCompare (ofString "1:2.0" ++ 0x2D :: (ofString "p" ++ ofString "1:x"))
        (ofString "1:2.0") :=
  ⟨((versionCompare_suffix (ofString "1:2.0") (ofString "1:x")).2 0x2D (by decide +kernel)).1 _
      (by decide +kernel) (by decide +kernel),
    ((versionCompare_suffix (ofString "1:2.0") (ofString "1:x")).2 0x2D (by decide +kernel)).2.2 _
      (by decide +kernel) (by decide +kernel) (by decide +kernel) (by decide +kernel)⟩

/-! ### The equality law -/

/-- **When versions are equal**: when they have the same epoch and the same tokens. -/
theorem versionCompare_eq_zero_iff {a b : Bytes} :
    versionCompare a b = 0 ↔ (stripEpoch a).1 = (stripEpoch b).1 ∧ tokens a = tokens b := by
  rw [versionCompare_eq]
  by_cases h : threeWay (stripEpoch a).1 (stripEpoch b).1 = 0
  · rw [if_pos h, cmpLists_eq_zero_iff lawfulCmp_cmpToken,
      and_iff_right (lawfulCmp_threeWay.eq_of_zero h)]
  · rw [if_neg h]
    exact iff_of_false h fun heq ↦ h (lawfulCmp_threeWay.eq_zero_iff.2 heq.1)

/-- Equal versions compare alike with every version. -/
theorem versionCompare_congr {a b : Bytes} (h : versionCompare a b = 0) (c : Bytes) :
    versionCompare a c = versionCompare b c := by
  obtain ⟨hepoch, htokens⟩ := versionCompare_eq_zero_iff.1 h
  rw [versionCompare, versionCompare, hepoch, htokens]

/-- Equal versions lie in the same ranges. -/
theorem versionInRange_congr {a b : Bytes} (h : versionCompare a b = 0)
    (startIncluding startExcluding endIncluding endExcluding : Bytes) :
    versionInRange a startIncluding startExcluding endIncluding endExcluding =
      versionInRange b startIncluding startExcluding endIncluding endExcluding := by
  simp only [versionInRange, versionCompare_congr h]

/-! ### What the tokens do not show -/

/-- Which of the separators it is. -/
theorem versionCompare_separator {s s' : UInt8} (hs : s ∈ separators) (hs' : s' ∈ separators)
    (x y : Bytes) : versionCompare (x ++ s :: y) (x ++ s' :: y) = 0 := by
  have key : ∀ t ∈ separators, (stripEpoch (x ++ t :: y)).1 = (stripEpoch x).1 ∧
      tokens (x ++ t :: y) = tokens x ++ tokenize y := by
    intro t ht
    obtain ⟨-, hdigit, halpha, hcolon⟩ := of_mem_separators t ht
    have hstrip := stripEpoch_append hdigit hcolon x y
    rw [tokens, hstrip, tokenize_append (breaks_of_head hdigit halpha _ _), tokenize_separator ht]
    exact ⟨rfl, rfl⟩
  rw [versionCompare_eq_zero_iff, (key s hs).1, (key s hs).2, (key s' hs').1, (key s' hs').2]
  exact ⟨rfl, rfl⟩

/-- Letter case, in the tokens. -/
theorem tokenize_map_lower (v : Bytes) : tokenize (v.map lower) = tokenize v := by
  have hdigit : isDigit ∘ lower = isDigit := funext isDigit_lower
  have halpha : isAlpha ∘ lower = isAlpha := funext isAlpha_lower
  fun_induction tokenize v with
  | case1 => rw [List.map_nil, tokenize]
  | case2 rest ih =>
    rw [List.map_cons, ← ih]
    exact tokenize_tilde _
  | case3 c rest htilde hc ih =>
    have hrun : (c :: rest.takeWhile isDigit).map lower = c :: rest.takeWhile isDigit :=
      map_lower_of_isDigit (List.forall_mem_cons.2 ⟨hc, fun d hd ↦ List.mem_takeWhile_imp hd⟩)
    rw [List.map_cons, tokenize_digit (by rwa [isDigit_lower]), List.takeWhile_map,
      List.dropWhile_map, hdigit, ih, ← List.map_cons, hrun]
  | case4 c rest htilde hnot hc ih =>
    rw [List.map_cons, tokenize_alpha (by rwa [isAlpha_lower]), List.takeWhile_map,
      List.dropWhile_map, halpha, ih, ← List.map_cons, List.map_map]
    congr 2
    exact List.map_congr_left fun c _ ↦ lower_lower c
  | case5 c rest htilde hnot hnot' ih =>
    rw [List.map_cons, tokenize_other (by rwa [ne_eq, lower_eq_iff (by decide)])
      (by rw [isDigit_lower]; simpa using hnot) (by rw [isAlpha_lower]; simpa using hnot'), ih]

/-- Letter case, in the epoch. -/
theorem stripEpoch_map_lower (v : Bytes) :
    stripEpoch (v.map lower) = ((stripEpoch v).1, (stripEpoch v).2.map lower) := by
  have hmem : ∀ x : Bytes, 0x3A ∈ x.map lower ↔ 0x3A ∈ x := by
    intro x
    simp only [List.mem_map, lower_eq_iff (show isAlpha 0x3A = false by decide),
      exists_eq_right]
  by_cases hv : 0x3A ∈ v
  · obtain ⟨front, rest, hfront, rfl⟩ := exists_append_colon hv
    have hall : (front.map lower).all isDigit = front.all isDigit := by
      rw [List.all_map, show isDigit ∘ lower = isDigit from funext isDigit_lower]
    rw [List.map_append, List.map_cons, show lower 0x3A = 0x3A by decide,
      stripEpoch_append_colon (mt (hmem front).1 hfront), stripEpoch_append_colon hfront, hall]
    split
    · next h => rw [map_lower_of_isDigit (by simpa using h)]
    · simp [show lower 0x3A = 0x3A by decide]
  · rw [stripEpoch_of_not_mem hv, stripEpoch_of_not_mem (mt (hmem v).1 hv)]

/-- Letter case. -/
theorem versionCompare_of_map_lower {a b : Bytes} (h : a.map lower = b.map lower) :
    versionCompare a b = 0 := by
  have key : ∀ v : Bytes, (stripEpoch (v.map lower)).1 = (stripEpoch v).1 ∧
      tokens (v.map lower) = tokens v := by
    intro v
    rw [tokens, stripEpoch_map_lower, tokenize_map_lower, tokens]
    exact ⟨rfl, rfl⟩
  rw [versionCompare_eq_zero_iff, ← (key a).1, ← (key a).2, h]
  exact key b

/-! ### One run of digits -/

theorem isAlpha_eq_false_of_isDigit {c : UInt8} (hc : isDigit c = true) : isAlpha c = false :=
  Bool.eq_false_iff.2 fun h ↦ by rw [isDigit_eq_false_of_isAlpha h] at hc; cases hc

/-- A whole run of digits is one token. -/
theorem tokenize_digits {ds w : Bytes} (hne : ds ≠ []) (hds : ∀ d ∈ ds, isDigit d = true)
    (hw : ∀ c ∈ w.head?, isDigit c = false) :
    tokenize (ds ++ w) = .numeric (numericValue ds) :: tokenize w := by
  rcases ds with - | ⟨d, ds⟩
  · exact absurd rfl hne
  · obtain ⟨hd, hds⟩ := List.forall_mem_cons.1 hds
    rw [List.cons_append, tokenize_digit hd, List.takeWhile_append_of_pos hds,
      List.dropWhile_append_of_pos hds, takeWhile_eq_nil_of_head hw,
      dropWhile_eq_self_of_head hw, List.append_nil]

/-- Nor does a token straddle the beginning of the run. -/
theorem tokenize_append_digits {p ds w : Bytes} (hp : ∀ c ∈ p.getLast?, isDigit c = false)
    (hne : ds ≠ []) (hds : ∀ d ∈ ds, isDigit d = true) (hw : ∀ c ∈ w.head?, isDigit c = false) :
    tokenize (p ++ (ds ++ w)) = tokenize p ++ .numeric (numericValue ds) :: tokenize w := by
  have hbreaks : Breaks p (ds ++ w) := by
    obtain ⟨d, ds, rfl⟩ := List.exists_cons_of_ne_nil hne
    refine ⟨fun c hc _ _ hdigit ↦ ?_, runEnds_of_head
      (isAlpha_eq_false_of_isDigit (hds d List.mem_cons_self)) p (ds ++ w)⟩
    rw [hp c hc] at hdigit
    cases hdigit
  rw [tokenize_append hbreaks, tokenize_digits hne hds hw]

theorem colon_not_mem_digits {ds : Bytes} (hds : ∀ d ∈ ds, isDigit d = true) : 0x3A ∉ ds :=
  fun h ↦ absurd (hds _ h) (by decide)

/-- **A run of digits is the epoch or stays behind it**: unless it begins the version and a colon
ends it, the epoch does not depend on it. -/
theorem exists_stripEpoch {u w : Bytes} (hu : ∀ c ∈ u.getLast?, isDigit c = false)
    (hw : ∀ c ∈ w.head?, isDigit c = false) (hnot : ¬ (u = [] ∧ w.head? = some 0x3A)) :
    ∃ epoch p, (∀ c ∈ p.getLast?, isDigit c = false) ∧
      ∀ ds : Bytes, (∀ d ∈ ds, isDigit d = true) →
        stripEpoch (u ++ (ds ++ w)) = (epoch, p ++ (ds ++ w)) := by
  by_cases hcolon : 0x3A ∈ u
  · -- the epoch, if there is one, ends within `u`
    obtain ⟨front, back, hfront, rfl⟩ := exists_append_colon hcolon
    have hback : ∀ b ∈ back.getLast?, isDigit b = false := by
      intro b hb
      refine hu b ?_
      rw [Option.mem_def, List.getLast?_append, List.getLast?_cons, hb]
      rfl
    by_cases hall : front.all isDigit = true
    · refine ⟨front.foldl pushDigit 0, back, hback, fun ds _ ↦ ?_⟩
      rw [List.append_assoc, List.cons_append, stripEpoch_append_colon hfront, if_pos hall]
    · refine ⟨0, front ++ 0x3A :: back, hu, fun ds _ ↦ ?_⟩
      rw [List.append_assoc, List.cons_append, stripEpoch_append_colon hfront, if_neg hall]
  · refine ⟨0, u, hu, fun ds hds ↦ ?_⟩
    rcases List.eq_nil_or_concat' u with rfl | ⟨u, c, rfl⟩
    · -- what ends the run is not a colon, so a later one has it in front
      rcases w with - | ⟨c, w⟩
      · rw [List.nil_append, List.append_nil]
        exact stripEpoch_of_not_mem (colon_not_mem_digits hds)
      · have hc : c ≠ 0x3A := by
          rintro rfl
          exact hnot ⟨rfl, rfl⟩
        rw [List.nil_append, stripEpoch_append (hw c rfl) hc,
          stripEpoch_of_not_mem (colon_not_mem_digits hds)]
    · -- a colon behind `c` does not make an epoch
      have hc : c ≠ 0x3A := by
        rintro rfl
        exact hcolon (by simp)
      have hu' : stripEpoch u = (0, u) := stripEpoch_of_not_mem fun h ↦ hcolon (by simp [h])
      rw [List.append_assoc, List.singleton_append, stripEpoch_append (hu c (by simp)) hc, hu']

/-- **Two versions that differ in one run of digits** are compared by it: as an epoch where it is
one, and as a number everywhere else. -/
theorem versionCompare_digits {u w x y : Bytes} (hu : ∀ c ∈ u.getLast?, isDigit c = false)
    (hw : ∀ c ∈ w.head?, isDigit c = false) (hx : x ≠ []) (hxs : ∀ d ∈ x, isDigit d = true)
    (hy : y ≠ []) (hys : ∀ d ∈ y, isDigit d = true) :
    versionCompare (u ++ (x ++ w)) (u ++ (y ++ w)) =
      if u = [] ∧ w.head? = some 0x3A then threeWay (x.foldl pushDigit 0) (y.foldl pushDigit 0)
      else threeWay (numericValue x) (numericValue y) := by
  split
  · next h =>
    obtain ⟨rfl, hcolon⟩ := h
    obtain ⟨rest, rfl⟩ : ∃ rest, w = 0x3A :: rest := List.head?_eq_some_iff.1 hcolon
    have hstrip : ∀ ds : Bytes, (∀ d ∈ ds, isDigit d = true) →
        stripEpoch (ds ++ 0x3A :: rest) = (ds.foldl pushDigit 0, rest) := by
      intro ds hds
      rw [stripEpoch_append_colon (colon_not_mem_digits hds), if_pos (List.all_eq_true.2 hds)]
    rw [List.nil_append, List.nil_append, versionCompare_eq, tokens, tokens, hstrip x hxs,
      hstrip y hys, cmpLists_self lawfulCmp_cmpToken, ite_eq_right_iff]
    exact Eq.symm
  · next h =>
    obtain ⟨epoch, p, hp, hstrip⟩ := exists_stripEpoch hu hw h
    rw [versionCompare_of_epoch_eq (by rw [hstrip x hxs, hstrip y hys]), tokens, tokens,
      hstrip x hxs, hstrip y hys, tokenize_append_digits hp hx hxs hw,
      tokenize_append_digits hp hy hys hw, cmpLists_append_cons lawfulCmp_cmpToken]
    rfl

/-! ### Leading zeros -/

theorem numericValue_zeros (n : ℕ) (ds : Bytes) :
    numericValue (List.replicate n 0x30 ++ ds) = numericValue ds := by
  rw [numericValue, numericValue, List.dropWhile_append_of_pos (by simp)]

theorem foldl_pushDigit_zeros (n : ℕ) (ds : Bytes) :
    (List.replicate n 0x30 ++ ds).foldl pushDigit 0 = ds.foldl pushDigit 0 := by
  induction n with
  | zero => rfl
  | succ n ih => exact ih

/-- Any number of them, where a number begins. -/
theorem versionCompare_zeros {x y : Bytes} {d : UInt8} (hx : ∀ c ∈ x.getLast?, isDigit c = false)
    (hd : isDigit d = true) (n : ℕ) :
    versionCompare (x ++ List.replicate n 0x30 ++ d :: y) (x ++ d :: y) = 0 := by
  -- the run that `d` begins, and what follows it
  obtain ⟨ds, w, hds, hw, hne, heq⟩ : ∃ ds w : Bytes, (∀ c ∈ ds, isDigit c = true) ∧
      (∀ c ∈ w.head?, isDigit c = false) ∧ ds ≠ [] ∧ d :: y = ds ++ w := by
    refine ⟨(d :: y).takeWhile isDigit, (d :: y).dropWhile isDigit,
      fun c hc ↦ List.mem_takeWhile_imp hc, ?_, ?_, (List.takeWhile_append_dropWhile).symm⟩
    · intro c hc
      have hnot := List.head?_dropWhile_not isDigit (d :: y)
      rwa [Option.mem_def.1 hc] at hnot
    · rw [List.takeWhile_cons_of_pos hd]
      exact List.cons_ne_nil _ _
  have hzeros : ∀ c ∈ List.replicate n 0x30 ++ ds, isDigit c = true := by
    intro c hc
    rcases List.mem_append.1 hc with hc | hc
    · rw [List.eq_of_mem_replicate hc]
      decide
    · exact hds c hc
  have hne' : List.replicate n 0x30 ++ ds ≠ [] := fun h ↦ hne (List.append_eq_nil_iff.1 h).2
  rw [heq, List.append_assoc, ← List.append_assoc (List.replicate n 0x30),
    versionCompare_digits hx hw hne' hzeros hne hds, foldl_pushDigit_zeros, numericValue_zeros,
    lawfulCmp_threeWay.self, lawfulCmp_threeWay.self, ite_self]

end Version

end NanoSensor
