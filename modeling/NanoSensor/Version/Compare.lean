import NanoSensor.Foundation.Bytes
import NanoSensor.Foundation.ThreeWay
import NanoSensor.Foundation.Words

/-!
# Comparing versions

`version_compare` of `src/vercmp.cpp`: an epoch, then the rest of the string as a list of tokens,
compared token by token, with a rule for the version that runs out of tokens first.

The rule makes a version that goes on with a pre-release word smaller than the one that ends
(`1.0rc` below `1.0`) and one that goes on with any other word greater (`1.0b` above `1.0`). But two
words at the same place are compared alphabetically (`1.0b` below `1.0rc`). A word that is not a
pre-release word and comes alphabetically before one that is closes a cycle, and
`versionCompare_preorder_iff` says that this is all that keeps the comparison from being a total
preorder: it is reflexive and antisymmetric throughout, and transitive on every three versions
outside a `PrereleaseClash`.

`versionInRange` and `versionUpstreamPart` are what the matcher of `src/cve.cpp` asks of versions.

Epochs and numbers are `unsigned long long` in the source and `UInt64` here: an epoch wraps, a
number of more than 18 significant digits saturates.
-/

namespace NanoSensor

open Bytes

namespace Version

/-! ### Tokens -/

/-- `enum class Kind`. -/
inductive Kind
  | tilde
  | alpha
  | numeric
  deriving DecidableEq, Repr

/-- `struct Token`, with the field that each kind uses. -/
inductive Token
  | tilde
  | alpha (text : Bytes)
  | numeric (num : UInt64)
  deriving DecidableEq, Repr

/-- The kind of a token. -/
def Token.kind : Token → Kind
  | .tilde => .tilde
  | .alpha _ => .alpha
  | .numeric _ => .numeric

/-- The words of `is_prerelease_word`. -/
def prereleaseWords : List Bytes :=
  ["rc", "alpha", "beta", "pre", "dev", "preview", "snapshot", "nightly", "a1"].map ofString

/-- `is_prerelease_word`. -/
def isPrereleaseWord (s : Bytes) : Bool :=
  prereleaseWords.contains s

/-- `value * 10 + (d - '0')`, in 64 bits. -/
def pushDigit (value : UInt64) (d : UInt8) : UInt64 :=
  value * 10 + (d - 0x30).toUInt64

/-- The value of a digit run: leading zeros are dropped, and more than 18 digits saturate. -/
def numericValue (digits : Bytes) : UInt64 :=
  let trimmed := digits.dropWhile (· == 0x30)
  if trimmed.length > 18 then ~~~0 else trimmed.foldl pushDigit 0

/-- `tokenize`. -/
def tokenize : Bytes → List Token
  | [] => []
  | c :: rest =>
    if c = 0x7E then .tilde :: tokenize rest
    else if isDigit c then
      .numeric (numericValue (c :: rest.takeWhile isDigit)) :: tokenize (rest.dropWhile isDigit)
    else if isAlpha c then
      .alpha ((c :: rest.takeWhile isAlpha).map lower) :: tokenize (rest.dropWhile isAlpha)
    else tokenize rest
termination_by v => v.length
decreasing_by
  all_goals
    have hdigits := (List.dropWhile_sublist (l := rest) isDigit).length_le
    have hletters := (List.dropWhile_sublist (l := rest) isAlpha).length_le
    simp only [List.length_cons]
    omega

/-! ### Comparing -/

/-- `rank`. -/
def rank : Kind → ℕ
  | .tilde => 0
  | .alpha => 1
  | .numeric => 2

/-- `cmp_token`. -/
def cmpToken (a b : Token) : ℤ :=
  if a.kind ≠ b.kind then if rank a.kind < rank b.kind then -1 else 1
  else
    match a, b with
    | .alpha s, .alpha t => threeWay s t
    | .numeric m, .numeric n => threeWay m n
    | _, _ => 0

/-- `cmp_remainder`, on the tokens that are left. -/
def cmpRemainder : List Token → ℤ
  | [] => 0
  | .tilde :: _ => -1
  | .alpha text :: _ => if isPrereleaseWord text then -1 else 1
  | .numeric _ :: _ => 1

/-- The token loop of `version_compare`, and what follows it when one side has run out. -/
def cmpTokens : List Token → List Token → ℤ
  | a :: as, b :: bs => if cmpToken a b ≠ 0 then cmpToken a b else cmpTokens as bs
  | as, [] => cmpRemainder as
  | [], bs => -cmpRemainder bs

/-- `strip_epoch`: the epoch, and the string behind it. -/
def stripEpoch (v : Bytes) : UInt64 × Bytes :=
  let front := v.takeWhile (· ≠ 0x3A)
  if front.length = v.length then (0, v)
  else if front.all isDigit then (front.foldl pushDigit 0, v.drop (front.length + 1))
  else (0, v)

/-- The tokens of a version behind its epoch. -/
def tokens (v : Bytes) : List Token :=
  tokenize (stripEpoch v).2

/-- `version_compare`. -/
def versionCompare (a b : Bytes) : ℤ :=
  if (stripEpoch a).1 ≠ (stripEpoch b).1 then
    if (stripEpoch a).1 < (stripEpoch b).1 then -1 else 1
  else cmpTokens (tokens a) (tokens b)

/-- `version_in_range`: an empty bound is none. -/
def versionInRange (v startIncluding startExcluding endIncluding endExcluding : Bytes) : Bool :=
  (startIncluding = [] || 0 ≤ versionCompare v startIncluding) &&
    (startExcluding = [] || 0 < versionCompare v startExcluding) &&
    (endIncluding = [] || versionCompare v endIncluding ≤ 0) &&
    (endExcluding = [] || versionCompare v endExcluding < 0)

/-- `version_upstream_part`: without the epoch, up to the last `-`, and of that up to the first
`+`. -/
def versionUpstreamPart (v : Bytes) : Bytes :=
  let v := (stripEpoch v).2
  let v := (Delimited.cut 0x2D v).getD v
  v.takeWhile (· ≠ 0x2B)

/-! ### What holds of every comparison -/

/-- The tokens that a version running out in front of them sorts behind. -/
def isEarly : Token → Bool
  | .tilde => true
  | .alpha text => isPrereleaseWord text
  | .numeric _ => false

theorem cmpRemainder_cons (t : Token) (ts : List Token) :
    cmpRemainder (t :: ts) = if isEarly t then -1 else 1 := by
  cases t <;> rfl

/-- The token loop is the general comparison of lists with an end rule. -/
theorem cmpTokens_eq_cmpLists : ∀ as bs : List Token,
    cmpTokens as bs = cmpLists cmpToken isEarly as bs
  | [], [] => rfl
  | a :: as, [] => cmpRemainder_cons a as
  | [], b :: bs => by
    show -cmpRemainder (b :: bs) = _
    rw [cmpRemainder_cons, cmpLists_nil_cons]
    split <;> rfl
  | a :: as, b :: bs => by
    rw [cmpTokens, cmpLists, cmpTokens_eq_cmpLists as bs, ite_not]

/-- **Tokens are linearly ordered**: by kind, and within a kind by text or value. -/
theorem lawfulCmp_cmpToken : LawfulCmp cmpToken where
  swap a b := by
    cases a <;> cases b <;> simp [cmpToken, Token.kind, rank]
    · exact lawfulCmp_threeWay.swap _ _
    · exact lawfulCmp_threeWay.swap _ _
  eq_of_zero {a b} h := by
    cases a <;> cases b <;> simp [cmpToken, Token.kind, rank] at h ⊢
    · exact lawfulCmp_threeWay.eq_of_zero h
    · exact lawfulCmp_threeWay.eq_of_zero h
  trans {a b c} hab hbc := by
    cases a <;> cases b <;> cases c <;> simp [cmpToken, Token.kind, rank] at hab hbc ⊢
    · exact lawfulCmp_threeWay.trans hab hbc
    · exact lawfulCmp_threeWay.trans hab hbc

/-- Versions are compared by their epochs first, and by their tokens where those are the same. -/
theorem versionCompare_eq (a b : Bytes) :
    versionCompare a b =
      if threeWay (stripEpoch a).1 (stripEpoch b).1 = 0 then
        cmpLists cmpToken isEarly (tokens a) (tokens b)
      else threeWay (stripEpoch a).1 (stripEpoch b).1 := by
  rw [versionCompare, cmpTokens_eq_cmpLists]
  rcases eq_or_ne (stripEpoch a).1 (stripEpoch b).1 with heq | hne
  · rw [if_neg (not_not.2 heq), if_pos (lawfulCmp_threeWay.eq_zero_iff.2 heq)]
  · rw [if_pos hne, if_neg (mt lawfulCmp_threeWay.eq_of_zero hne), threeWay, if_neg hne]

theorem versionCompare_of_epoch_eq {a b : Bytes} (h : (stripEpoch a).1 = (stripEpoch b).1) :
    versionCompare a b = cmpLists cmpToken isEarly (tokens a) (tokens b) := by
  rw [versionCompare_eq, if_pos (lawfulCmp_threeWay.eq_zero_iff.2 h)]

theorem versionCompare_self (a : Bytes) : versionCompare a a = 0 := by
  rw [versionCompare_of_epoch_eq rfl]
  exact cmpLists_self lawfulCmp_cmpToken _

theorem versionCompare_swap (a b : Bytes) : versionCompare a b = -versionCompare b a := by
  rw [versionCompare_eq, versionCompare_eq, lawfulCmp_threeWay.swap (stripEpoch a).1,
    cmpLists_swap lawfulCmp_cmpToken (tokens a)]
  simp only [neg_eq_zero]
  split <;> rfl

/-! ### Where transitivity ends -/

/-- The token lists agree up to a place where the first goes on with a pre-release word, the second
ends, and the third goes on with another word, which comes alphabetically before the first one's. -/
def WordClash : List Token → List Token → List Token → Prop
  | a :: as, b :: bs, c :: cs => a = b ∧ b = c ∧ WordClash as bs cs
  | .alpha word :: _, [], .alpha other :: _ =>
    isPrereleaseWord word = true ∧ isPrereleaseWord other = false ∧ other < word
  | _, _, _ => False

/-- Three versions of one epoch whose tokens clash, in one of the three cyclic orders. -/
def PrereleaseClash (a b c : Bytes) : Prop :=
  (stripEpoch a).1 = (stripEpoch b).1 ∧ (stripEpoch b).1 = (stripEpoch c).1 ∧
    (WordClash (tokens a) (tokens b) (tokens c) ∨ WordClash (tokens b) (tokens c) (tokens a) ∨
      WordClash (tokens c) (tokens a) (tokens b))

/-- Only words clash: nothing is in front of `~`, and nothing but a number is behind a number. -/
theorem cyclic_iff_wordClash : ∀ as bs cs : List Token,
    Cyclic cmpToken isEarly as bs cs ↔ WordClash as bs cs
  | a :: as, b :: bs, c :: cs => by
    rw [Cyclic, WordClash, cyclic_iff_wordClash as bs cs]
  | a :: _, [], c :: _ => by
    cases a <;> cases c <;>
      simp [Cyclic, WordClash, isEarly, cmpToken, Token.kind, rank, threeWay_neg_iff]
  | [], _, _ => by simp [Cyclic, WordClash]
  | _ :: _, [], [] => by simp [Cyclic, WordClash]
  | _ :: _, _ :: _, [] => by simp [Cyclic, WordClash]

/-- **When `version_compare` is a total preorder.** It is reflexive and antisymmetric on all
versions, and transitive on three of them exactly when they do not clash. -/
theorem versionCompare_preorder_iff (a b c : Bytes) :
    (versionCompare a a = 0 ∧ versionCompare a b = -versionCompare b a ∧
      (versionCompare a b ≤ 0 → versionCompare b c ≤ 0 → versionCompare a c ≤ 0)) ↔
      ¬ PrereleaseClash a b c := by
  rw [and_iff_right (versionCompare_self a), and_iff_right (versionCompare_swap a b)]
  by_cases heq : (stripEpoch a).1 = (stripEpoch b).1 ∧ (stripEpoch b).1 = (stripEpoch c).1
  · rw [versionCompare_of_epoch_eq heq.1, versionCompare_of_epoch_eq heq.2,
      versionCompare_of_epoch_eq (heq.1.trans heq.2), cmpLists_trans_iff lawfulCmp_cmpToken,
      PrereleaseClash, and_iff_right heq.1, and_iff_right heq.2]
    simp only [cyclic_iff_wordClash]
  · refine iff_of_true ?_ fun h ↦ heq ⟨h.1, h.2.1⟩
    rw [versionCompare_eq, versionCompare_eq, versionCompare_eq]
    exact lawfulCmp_threeWay.lex_trans _ heq

/-- `1.0.2-beta1` is below `1.0.2` and `1.0.2` below `1.0.2a`, but `1.0.2a` is below
`1.0.2-beta1`. -/
theorem versionCompare_cycle :
    versionCompare (ofString "1.0.2-beta1") (ofString "1.0.2") ≤ 0 ∧
      versionCompare (ofString "1.0.2") (ofString "1.0.2a") ≤ 0 ∧
      ¬ versionCompare (ofString "1.0.2-beta1") (ofString "1.0.2a") ≤ 0 := by
  decide +kernel

end Version

end NanoSensor
