import Mathlib.Data.List.DropRight
import NanoSensor.Foundation.Blanks
import NanoSensor.Foundation.Brackets
import NanoSensor.Foundation.Bytes

/-!
# Names

`normalize_name` of `src/cve.cpp`, which brings the display names of Windows and the package names
of Linux into one form that an alias table can be keyed on: what stands in brackets is dropped,
letters become lower case, and of the words that remain those that are versions or noise are left
out. What comes out is the words it keeps with single spaces between them (`normalizeName_eq`).

What comes out is a normal form. The names that come out are those that are left as they are
(`normalizeName_eq_self_iff`), and a name can be changed in the ways that display names of one
product differ without a change of what comes out: in the case of its letters
(`normalizeName_of_map_lower`), by a group in brackets anywhere (`normalizeName_append_bracketed`),
and by a version or a noise word between blanks (`normalizeName_insert`).
-/

namespace NanoSensor

open Bytes

open Brackets (Kind Balanced Bracketed depth outside)

/-- `' '`. -/
def space : UInt8 := 0x20

/-- The characters of `" \t\r\n"`. -/
def isBlank (b : UInt8) : Bool :=
  b == 0x20 || b == 0x09 || b == 0x0D || b == 0x0A

/-- `trim`. -/
def trim (s : Bytes) : Bytes :=
  (s.dropWhile isBlank).rdropWhile isBlank

/-- `token_is_version`: digits, dots and commas, behind a `v` or not, and at least one digit. -/
def tokenIsVersion (t : Bytes) : Bool :=
  let rest := if 1 < t.length ∧ t.head? = some 0x76 then t.tail else t
  rest.all (fun c ↦ isDigit c || c == 0x2E || c == 0x2C) && rest.any isDigit

/-- `kNoise`. -/
def noise : List Bytes :=
  ["x64", "x86", "amd64", "arm64", "win32", "win64", "64-bit", "32-bit", "(64-bit)", "(32-bit)",
    "en-us", "en_us", "bit", "edition", "-"].map ofString

/-- `token_is_noise`. -/
def tokenIsNoise (t : Bytes) : Bool :=
  noise.contains t

/-- The first loop of `normalize_name`: drop what stands in brackets, in lower case the rest. -/
def lowerOutside : ℕ → Bytes → Bytes
  | _, [] => []
  | depth, c :: rest =>
    if c = 0x28 ∨ c = 0x5B then lowerOutside (depth + 1) rest
    else if c = 0x29 ∨ c = 0x5D then lowerOutside (depth - 1) rest
    else if 0 < depth then lowerOutside depth rest
    else lower c :: lowerOutside depth rest

/-- `while (ss >> tok)`. -/
def streamWords (s : Bytes) : List Bytes :=
  (s.splitOnP isSpace).filter (· ≠ [])

/-- `CveIndex::normalize_name`. -/
def normalizeName (raw : Bytes) : Bytes :=
  let keep := (streamWords (lowerOutside 0 raw)).filter fun tok ↦
    !(tokenIsVersion tok || tokenIsNoise tok)
  trim ([space].intercalate keep)

/-! ### The words that are kept -/

theorem streamWords_eq (s : Bytes) : streamWords s = words isSpace s := by
  rw [streamWords, words]
  refine List.filter_congr fun w _ ↦ ?_
  rcases w with - | ⟨c, w⟩
  · rfl
  · rfl

theorem of_mem_streamWords {s w : Bytes} (h : w ∈ streamWords s) :
    w ≠ [] ∧ ∀ c ∈ w, isSpace c = false := by
  rw [streamWords_eq] at h
  exact of_mem_words s w h

theorem streamWords_intercalate {ws : List Bytes}
    (h : ∀ w ∈ ws, w ≠ [] ∧ ∀ c ∈ w, isSpace c = false) :
    streamWords ([space].intercalate ws) = ws := by
  rw [streamWords_eq]
  exact words_intercalate (by decide) h

theorem isSpace_of_isBlank {c : UInt8} (h : isBlank c = true) : isSpace c = true := by
  simp only [isBlank, Bool.or_eq_true, beq_iff_eq] at h
  rcases h with ((rfl | rfl) | rfl) | rfl <;> rfl

/-- There is nothing to trim. -/
theorem trim_intercalate {ws : List Bytes}
    (h : ∀ w ∈ ws, w ≠ [] ∧ ∀ c ∈ w, isSpace c = false) :
    trim ([space].intercalate ws) = [space].intercalate ws := by
  have hblank : ∀ c, isSpace c = false → ¬ isBlank c = true := fun c hc hb ↦ by
    rw [isSpace_of_isBlank hb] at hc
    cases hc
  have hdrop : ([space].intercalate ws).dropWhile isBlank = [space].intercalate ws := by
    rw [List.dropWhile_eq_self_iff]
    intro hpos
    refine hblank _ (head?_intercalate (d := space) h _ ?_)
    rw [List.head?_eq_getElem?, List.getElem?_eq_getElem hpos, Option.mem_some_iff]
  rw [trim, hdrop, List.rdropWhile_eq_self_iff]
  intro hne
  exact hblank _ (getLast?_intercalate h _ (List.getLast?_eq_some_getLast hne))

/-- The words that `normalize_name` keeps. -/
def keptWords (raw : Bytes) : List Bytes :=
  (streamWords (lowerOutside 0 raw)).filter fun tok ↦ !(tokenIsVersion tok || tokenIsNoise tok)

theorem of_mem_keptWords {raw : Bytes} :
    ∀ w ∈ keptWords raw, w ≠ [] ∧ ∀ c ∈ w, isSpace c = false := fun _ hw ↦
  of_mem_streamWords (List.mem_of_mem_filter hw)

/-- **A normalized name is words with single spaces between them.** -/
theorem normalizeName_eq (raw : Bytes) : normalizeName raw = [space].intercalate (keptWords raw) :=
  trim_intercalate of_mem_keptWords

theorem streamWords_normalizeName (raw : Bytes) :
    streamWords (normalizeName raw) = keptWords raw := by
  rw [normalizeName_eq, streamWords_intercalate of_mem_keptWords]

theorem normalizeName_eq_iff {x y : Bytes} :
    normalizeName x = normalizeName y ↔ keptWords x = keptWords y := by
  constructor
  · intro h
    rw [← streamWords_normalizeName, h, streamWords_normalizeName]
  · intro h
    rw [normalizeName_eq, h, ← normalizeName_eq]

/-! ### Brackets and letter case -/

/-- What a byte is to the first loop of `normalize_name`. -/
def bracket (c : UInt8) : Kind :=
  if c = 0x28 ∨ c = 0x5B then .opening
  else if c = 0x29 ∨ c = 0x5D then .closing
  else .other

theorem bracket_lower (c : UInt8) : bracket (lower c) = bracket c := by
  simp only [bracket, lower_eq_iff (show isAlpha 0x28 = false by decide),
    lower_eq_iff (show isAlpha 0x5B = false by decide),
    lower_eq_iff (show isAlpha 0x29 = false by decide),
    lower_eq_iff (show isAlpha 0x5D = false by decide)]

theorem bracket_of_isSpace {c : UInt8} : isSpace c = true → bracket c = .other :=
  forall_byte (by decide +kernel) c

/-- The first loop keeps what is outside brackets, in lower case. -/
theorem lowerOutside_eq (d : ℕ) (raw : Bytes) :
    lowerOutside d raw = (outside bracket d raw).map lower := by
  induction raw generalizing d with
  | nil => rfl
  | cons c raw ih =>
    rw [lowerOutside, outside, Brackets.step, bracket]
    by_cases hopening : c = 0x28 ∨ c = 0x5B
    · simp [hopening, ih]
    · by_cases hclosing : c = 0x29 ∨ c = 0x5D
      · simp [hopening, hclosing, ih]
      · rcases Nat.eq_zero_or_pos d with rfl | hd
        · simp [hopening, hclosing, ih]
        · simp [hopening, hclosing, ih, hd, hd.ne']

/-- The `int` that counts the brackets does not overflow in a name of less than `2 ^ 31` bytes. -/
theorem depth_lt_of_length_lt {raw : Bytes} (h : raw.length < 2 ^ 31) (n : ℕ) :
    depth bracket 0 (raw.take n) < 2 ^ 31 := by
  calc depth bracket 0 (raw.take n)
      ≤ 0 + (raw.take n).length := Brackets.depth_le 0 _
    _ = (raw.take n).length := Nat.zero_add _
    _ ≤ raw.length := List.length_take_le' n raw
    _ < 2 ^ 31 := h

theorem lowerOutside_eq_self {s : Bytes} (hbracket : ∀ c ∈ s, bracket c = .other)
    (hlower : ∀ c ∈ s, lower c = c) : lowerOutside 0 s = s := by
  rw [lowerOutside_eq, Brackets.outside_eq_self hbracket]
  exact (List.map_congr_left hlower).trans (List.map_id' s)

/-! ### Names in normal form -/

/-- **A name in normal form.** -/
structure IsNormalName (s : Bytes) : Prop where
  no_bracket : ∀ c ∈ s, bracket c = .other
  no_upper : ∀ c ∈ s, c < 0x41 ∨ 0x5A < c
  no_version : ∀ w ∈ streamWords s, tokenIsVersion w = false
  no_noise : ∀ w ∈ streamWords s, tokenIsNoise w = false
  /-- The words have one space between them, and there is no other blank. -/
  spaced : [space].intercalate (streamWords s) = s

theorem of_mem_lowerOutside {raw : Bytes} {c : UInt8} (hc : c ∈ lowerOutside 0 raw) :
    bracket c = .other ∧ lower c = c := by
  rw [lowerOutside_eq] at hc
  obtain ⟨b, hb, rfl⟩ := List.mem_map.1 hc
  exact ⟨(bracket_lower b).trans (Brackets.kind_of_mem_outside hb), lower_lower b⟩

/-- The bytes of a normalized name: those of its words, and the spaces between them. -/
theorem of_mem_normalizeName {raw : Bytes} {c : UInt8} (hc : c ∈ normalizeName raw) :
    bracket c = .other ∧ lower c = c := by
  rw [normalizeName_eq] at hc
  rcases eq_or_mem_of_mem_intercalate hc with rfl | ⟨w, hw, hcw⟩
  · decide
  · have hword : w ∈ words isSpace (lowerOutside 0 raw) := by
      rw [← streamWords_eq]
      exact List.mem_of_mem_filter hw
    exact of_mem_lowerOutside (mem_of_mem_words hword hcw)

/-- **What comes out is in normal form.** -/
theorem isNormalName_normalizeName (raw : Bytes) : IsNormalName (normalizeName raw) := by
  have hkept : ∀ w ∈ streamWords (normalizeName raw),
      tokenIsVersion w = false ∧ tokenIsNoise w = false := by
    intro w hw
    rw [streamWords_normalizeName] at hw
    simpa using List.of_mem_filter hw
  exact
    { no_bracket := fun c hc ↦ (of_mem_normalizeName hc).1
      no_upper := fun c hc ↦ lower_eq_self_iff.1 (of_mem_normalizeName hc).2
      no_version := fun w hw ↦ (hkept w hw).1
      no_noise := fun w hw ↦ (hkept w hw).2
      spaced := by rw [streamWords_normalizeName, ← normalizeName_eq] }

/-- **The names in normal form are those that are left as they are.** -/
theorem normalizeName_eq_self_iff {s : Bytes} : normalizeName s = s ↔ IsNormalName s := by
  constructor
  · intro h
    rw [← h]
    exact isNormalName_normalizeName s
  · intro h
    have hlower : lowerOutside 0 s = s :=
      lowerOutside_eq_self h.no_bracket fun c hc ↦ lower_eq_self_iff.2 (h.no_upper c hc)
    have hkept : keptWords s = streamWords s := by
      rw [keptWords, hlower, List.filter_eq_self]
      intro w hw
      simp [h.no_version w hw, h.no_noise w hw]
    rw [normalizeName_eq, hkept, h.spaced]

/-- The names in normal form are those that come out, of whatever name: a pattern of an alias table
that is not in normal form equals no name. -/
theorem exists_normalizeName_eq_iff {s : Bytes} :
    (∃ raw, normalizeName raw = s) ↔ IsNormalName s := by
  constructor
  · rintro ⟨raw, rfl⟩
    exact isNormalName_normalizeName raw
  · exact fun h ↦ ⟨s, normalizeName_eq_self_iff.2 h⟩

/-! ### What a name can be changed in -/

/-- **The case of the letters.** -/
theorem normalizeName_of_map_lower {x y : Bytes} (h : x.map lower = y.map lower) :
    normalizeName x = normalizeName y := by
  have hlower : lowerOutside 0 x = lowerOutside 0 y := by
    rw [lowerOutside_eq, lowerOutside_eq, ← Brackets.outside_map bracket_lower,
      ← Brackets.outside_map bracket_lower, h]
  rw [normalizeName_eq_iff, keptWords, keptWords, hlower]

theorem keptWords_eq_of_outside_eq {x y : Bytes} (h : outside bracket 0 x = outside bracket 0 y) :
    keptWords x = keptWords y := by
  rw [keptWords, keptWords, lowerOutside_eq, lowerOutside_eq, h]

/-- **A group in brackets, anywhere.** -/
theorem normalizeName_append_bracketed {g : Bytes} (hg : Bracketed bracket g) (u v : Bytes) :
    normalizeName (u ++ (g ++ v)) = normalizeName (u ++ v) :=
  normalizeName_eq_iff.2 (keptWords_eq_of_outside_eq (Brackets.outside_append_bracketed hg 0 u v))

/-- The words on both sides of a blank that is outside brackets. -/
theorem keptWords_append_cons {u : Bytes} (hu : depth bracket 0 u = 0) {a : UInt8}
    (ha : isSpace a = true) (v : Bytes) :
    keptWords (u ++ a :: v) = keptWords u ++ keptWords v := by
  have hlower : lowerOutside 0 (u ++ a :: v) = lowerOutside 0 u ++ lower a :: lowerOutside 0 v := by
    rw [lowerOutside_eq, lowerOutside_eq, lowerOutside_eq, Brackets.outside_append, hu,
      Brackets.outside_cons_of_other (bracket_of_isSpace ha), List.map_append, List.map_cons]
  rw [keptWords, hlower, streamWords_eq, words_append_cons ((isSpace_lower a).trans ha),
    List.filter_append, ← streamWords_eq, ← streamWords_eq]
  rfl

/-- The place between `u` and `v` is at a blank, and so not in the middle of a word. -/
def AtBlank (u v : Bytes) : Prop :=
  (∃ c ∈ u.getLast?, isSpace c = true) ∨ ∃ c ∈ v.head?, isSpace c = true

theorem keptWords_append_of_atBlank {u v : Bytes} (hu : depth bracket 0 u = 0)
    (h : AtBlank u v) : keptWords (u ++ v) = keptWords u ++ keptWords v := by
  rcases h with ⟨c, hlast, hc⟩ | ⟨c, hhead, hc⟩
  · obtain ⟨u, rfl⟩ := List.getLast?_eq_some_iff.1 hlast
    -- the blank at the end leaves the depth as it is
    have hdepth : depth bracket 0 u = 0 := by
      rwa [Brackets.depth_append, Brackets.depth_cons, Brackets.depth_nil,
        Brackets.step_of_other (bracket_of_isSpace hc)] at hu
    have hend : keptWords (u ++ [c]) = keptWords u := by
      rw [keptWords_append_cons hdepth hc]
      exact List.append_nil _
    rw [hend, List.append_assoc, List.singleton_append, keptWords_append_cons hdepth hc]
  · obtain ⟨v, rfl⟩ := List.head?_eq_some_iff.1 hhead
    have hfront : keptWords (c :: v) = keptWords v := keptWords_append_cons (u := []) rfl hc v
    rw [hfront, keptWords_append_cons hu hc]

/-- A balanced text of which no word is kept can be put in, with blanks around it. -/
theorem keptWords_insert {u v t : Bytes} {a b : UInt8} (hplace : AtBlank u v)
    (ha : isSpace a = true) (hb : isSpace b = true) (ht : Balanced bracket t)
    (hkept : keptWords t = []) : keptWords (u ++ a :: (t ++ b :: v)) = keptWords (u ++ v) := by
  rcases Nat.eq_zero_or_pos (depth bracket 0 u) with hu | hu
  · rw [keptWords_append_cons hu ha, keptWords_append_cons (ht.depth_eq 0) hb, hkept,
      List.nil_append, keptWords_append_of_atBlank hu hplace]
  · -- inside brackets all of it is dropped
    have hall : Balanced bracket (a :: (t ++ [b])) :=
      (ht.append (.other (bracket_of_isSpace hb))).cons (bracket_of_isSpace ha)
    have hsplit : a :: (t ++ b :: v) = a :: (t ++ [b]) ++ v := by simp
    rw [hsplit]
    exact keptWords_eq_of_outside_eq (Brackets.outside_append_balanced hall hu v)

/-! ### Words that are left out -/

/-- What the first loop keeps as it is, and what does not end a word. -/
def IsPlain (c : UInt8) : Prop :=
  bracket c = .other ∧ lower c = c ∧ isSpace c = false

theorem streamWords_lowerOutside_of_isPlain {t : Bytes} (hne : t ≠ []) (h : ∀ c ∈ t, IsPlain c) :
    streamWords (lowerOutside 0 t) = [t] := by
  rw [lowerOutside_eq_self (fun c hc ↦ (h c hc).1) (fun c hc ↦ (h c hc).2.1), streamWords_eq]
  exact words_of_forall hne fun c hc ↦ (h c hc).2.2

theorem isPlain_of_version {c : UInt8} :
    c = 0x76 ∨ (isDigit c || c == 0x2E || c == 0x2C) = true → IsPlain c :=
  forall_byte (by simp only [IsPlain]; decide +kernel) c

theorem isPlain_of_tokenIsVersion {t : Bytes} (h : tokenIsVersion t = true) :
    t ≠ [] ∧ ∀ c ∈ t, IsPlain c := by
  rw [tokenIsVersion, Bool.and_eq_true, List.all_eq_true] at h
  obtain ⟨hall, hany⟩ := h
  constructor
  · rintro rfl
    cases hany
  · intro c hc
    split at hall
    · next hv =>
      -- a `v` in front of the rest
      obtain ⟨t, rfl⟩ := List.head?_eq_some_iff.1 hv.2
      rcases List.mem_cons.1 hc with rfl | hc
      · exact isPlain_of_version (Or.inl rfl)
      · exact isPlain_of_version (Or.inr (hall c hc))
    · exact isPlain_of_version (Or.inr (hall c hc))

theorem keptWords_of_tokenIsVersion {t : Bytes} (h : tokenIsVersion t = true) :
    keptWords t = [] := by
  obtain ⟨hne, hplain⟩ := isPlain_of_tokenIsVersion h
  rw [keptWords, streamWords_lowerOutside_of_isPlain hne hplain]
  simp [h]

theorem keptWords_of_mem_noise : ∀ t ∈ noise, keptWords t = [] := by
  decide +kernel

/-- Two of the noise words are in brackets themselves, so that the loop never comes to see them. -/
theorem balanced_of_mem_noise {t : Bytes} (h : t ∈ noise) : Balanced bracket t := by
  have hnoise : ∀ t ∈ noise, (∀ c ∈ t, bracket c = .other) ∨
      ∃ s ∈ noise, (∀ c ∈ s, bracket c = .other) ∧ t = 0x28 :: (s ++ [0x29]) := by
    decide +kernel
  rcases hnoise t h with hother | ⟨s, -, hother, rfl⟩
  · exact .of_other hother
  · exact .group rfl rfl (.of_other hother)

/-- What is left out of a name: a group in brackets, a version, and a noise word. -/
def LeftOut (t : Bytes) : Prop :=
  Bracketed bracket t ∨ tokenIsVersion t = true ∨ tokenIsNoise t = true

theorem LeftOut.balanced {t : Bytes} (h : LeftOut t) : Balanced bracket t := by
  rcases h with h | h | h
  · exact h.balanced
  · exact .of_other fun c hc ↦ ((isPlain_of_tokenIsVersion h).2 c hc).1
  · exact balanced_of_mem_noise (List.contains_iff_mem.1 h)

theorem LeftOut.keptWords_eq_nil {t : Bytes} (h : LeftOut t) : keptWords t = [] := by
  rcases h with h | h | h
  · rw [keptWords, lowerOutside_eq, h.outside_eq_nil]
    rfl
  · exact keptWords_of_tokenIsVersion h
  · exact keptWords_of_mem_noise t (List.contains_iff_mem.1 h)

/-- **A group, a version or a noise word, with blanks around it, where a blank was.** -/
theorem normalizeName_insert {u v t : Bytes} {a b : UInt8} (hplace : AtBlank u v)
    (ha : isSpace a = true) (hb : isSpace b = true) (ht : LeftOut t) :
    normalizeName (u ++ a :: (t ++ b :: v)) = normalizeName (u ++ v) :=
  normalizeName_eq_iff.2 (keptWords_insert hplace ha hb ht.balanced ht.keptWords_eq_nil)

/-- **`normalize_name` is a normal form.** What may be put in between two words need not be put in
outside brackets, and a group may be put in without blanks. -/
theorem normalizeName_normal_form :
    (∀ x, normalizeName (normalizeName x) = normalizeName x) ∧
      (∀ x, IsNormalName (normalizeName x)) ∧
      (∀ x y : Bytes, x.map lower = y.map lower → normalizeName x = normalizeName y) ∧
      (∀ u g v, Bracketed bracket g → normalizeName (u ++ (g ++ v)) = normalizeName (u ++ v)) ∧
      ∀ u a t b v, AtBlank u v → isSpace a = true → isSpace b = true → LeftOut t →
        normalizeName (u ++ a :: (t ++ b :: v)) = normalizeName (u ++ v) :=
  ⟨fun x ↦ normalizeName_eq_self_iff.2 (isNormalName_normalizeName x), isNormalName_normalizeName,
    fun _ _ h ↦ normalizeName_of_map_lower h,
    fun u _ v hg ↦ normalizeName_append_bracketed hg u v,
    fun _ _ _ _ _ hplace ha hb ht ↦ normalizeName_insert hplace ha hb ht⟩

/-- `Oracle VM` in capitals, with a group in the middle of a word, and with a version and a noise
word between its words. -/
theorem normalizeName_normal_form_oracle :
    normalizeName (ofString "Oracle VM") = ofString "oracle vm" ∧
      normalizeName (ofString "ORACLE VM") = normalizeName (ofString "Oracle VM") ∧
      normalizeName (ofString "Ora" ++ (ofString "([1] x)" ++ ofString "cle VM")) =
        normalizeName (ofString "Ora" ++ ofString "cle VM") ∧
      normalizeName
          (ofString "Oracle" ++ space :: (ofString "v7.0.12" ++ space :: ofString " VM")) =
        normalizeName (ofString "Oracle" ++ ofString " VM") ∧
      normalizeName
          (ofString "Oracle " ++ space :: (ofString "(64-bit)" ++ 0x09 :: ofString "VM")) =
        normalizeName (ofString "Oracle " ++ ofString "VM") := by
  obtain ⟨-, -, hcase, hgroup, hinsert⟩ := normalizeName_normal_form
  refine ⟨by decide +kernel, hcase _ _ (by decide +kernel), hgroup _ _ _ ?_, ?_, ?_⟩
  · refine ⟨0x28, ofString "[1] x", 0x29, rfl, rfl, ?_, by decide +kernel⟩
    have hinner : Balanced bracket (ofString "[1]") :=
      .group (s := ofString "1") (o := 0x5B) (c := 0x5D) rfl rfl (.other rfl)
    exact hinner.append (t := ofString " x") (.of_other (by decide +kernel))
  · exact hinsert _ _ _ _ _ (Or.inr ⟨space, by decide +kernel, rfl⟩) rfl rfl
      (Or.inr (Or.inl (by decide +kernel)))
  · exact hinsert _ _ _ _ _ (Or.inl ⟨space, by decide +kernel, rfl⟩) rfl rfl
      (Or.inr (Or.inr (by decide +kernel)))

end NanoSensor
