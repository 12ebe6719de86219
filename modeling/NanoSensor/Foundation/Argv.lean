import NanoSensor.Foundation.Bytes

/-!
# Cutting a command line into arguments

The rules that `CommandLineToArgvW` and the C runtime of a Windows program have in common. Blanks
end an argument, unless they stand in quotes. Backslashes stand for themselves, unless a quote
follows: then two of them stand for one, and the quote is a character of the argument if one
backslash is left over, and opens or closes quotes if not. Two quotes in a row inside quotes are
taken here for one that closes and one that opens; there the two go ways of their own.

`weigh` measures how much of a line's backslashes and quotes the arguments have kept, counting a
backslash twice. A backslash in front of a quote is worth one then, and any other is worth two,
whatever the quotes do to the blanks between them (`sum_weigh_scan`). So a line that is worth less
than some arguments does not stand for them.
-/

open Bytes

namespace Argv

/-- The argument so far, with backslashes that no quote follows. -/
def flush (slashes : ℕ) (arg : Option Bytes) : Option Bytes :=
  if slashes = 0 then arg else some (arg.getD [] ++ List.replicate slashes 0x5C)

/-- Go on in a line: in quotes or not, behind so many backslashes, with the argument so far if one
has begun. -/
def scan : (quoted : Bool) → (slashes : ℕ) → (arg : Option Bytes) → Bytes → List Bytes
  | _, slashes, arg, [] => (flush slashes arg).toList
  | quoted, slashes, arg, c :: rest =>
    if c = 0x5C then scan quoted (slashes + 1) arg rest
    else if c = 0x22 then
      let text := arg.getD [] ++ List.replicate (slashes / 2) 0x5C
      if slashes % 2 = 1 then scan quoted 0 (some (text ++ [0x22])) rest
      else scan (!quoted) 0 (some text) rest
    else if isSpaceOrTab c && !quoted then (flush slashes arg).toList ++ scan false 0 none rest
    else scan quoted 0 (some ((flush slashes arg).getD [] ++ [c])) rest

/-- The arguments of a line. -/
def parse (line : Bytes) : List Bytes :=
  scan false 0 none line

section Scan

variable (quoted : Bool) (slashes : ℕ) (arg : Option Bytes) (rest : Bytes)

theorem getD_flush : (flush slashes arg).getD [] = arg.getD [] ++ List.replicate slashes 0x5C := by
  rw [flush]
  split
  · next h => rw [h, List.replicate_zero, List.append_nil]
  · rfl

theorem scan_backslash :
    scan quoted slashes arg (0x5C :: rest) = scan quoted (slashes + 1) arg rest := by
  rw [scan, if_pos rfl]

theorem scan_quote :
    scan quoted slashes arg (0x22 :: rest) =
      if slashes % 2 = 1 then
        scan quoted 0 (some (arg.getD [] ++ List.replicate (slashes / 2) 0x5C ++ [0x22])) rest
      else scan (!quoted) 0 (some (arg.getD [] ++ List.replicate (slashes / 2) 0x5C)) rest := by
  rw [scan, if_neg (by decide), if_pos rfl]

theorem scan_blank {c : UInt8} (hc : isSpaceOrTab c = true) :
    scan false slashes arg (c :: rest) = (flush slashes arg).toList ++ scan false 0 none rest := by
  have hne : c ≠ 0x5C ∧ c ≠ 0x22 := by
    constructor <;> rintro rfl <;> cases hc
  rw [scan, if_neg hne.1, if_neg hne.2, if_pos (by simp [hc])]

theorem scan_other {c : UInt8} (hslash : c ≠ 0x5C) (hquote : c ≠ 0x22)
    (hblank : (isSpaceOrTab c && !quoted) = false) :
    scan quoted slashes arg (c :: rest) =
      scan quoted 0 (some (arg.getD [] ++ List.replicate slashes 0x5C ++ [c])) rest := by
  rw [scan, if_neg hslash, if_neg hquote, if_neg (by simp [hblank]), getD_flush]

end Scan

/-! ### What an argument weighs -/

/-- Two for a backslash and one for a quote. -/
def weigh (s : Bytes) : ℕ :=
  2 * s.count 0x5C + s.count 0x22

/-- What a line weighs behind so many backslashes: one for a backslash in front of a quote, two for
any other, and nothing for the quotes. -/
def weighLine : (slashes : ℕ) → Bytes → ℕ
  | slashes, [] => 2 * slashes
  | slashes, c :: rest =>
    if c = 0x5C then weighLine (slashes + 1) rest
    else if c = 0x22 then slashes + weighLine 0 rest
    else 2 * slashes + weighLine 0 rest

@[simp] theorem weigh_nil : weigh [] = 0 := rfl

@[simp] theorem weigh_append (s t : Bytes) : weigh (s ++ t) = weigh s + weigh t := by
  simp only [weigh, List.count_append]
  omega

@[simp] theorem weigh_replicate (n : ℕ) : weigh (List.replicate n 0x5C) = 2 * n := by
  simp [weigh, List.count_replicate]

theorem weigh_cons_backslash (s : Bytes) : weigh (0x5C :: s) = 2 + weigh s :=
  weigh_append [0x5C] s

theorem weigh_cons_quote (s : Bytes) : weigh (0x22 :: s) = 1 + weigh s :=
  weigh_append [0x22] s

theorem weigh_cons_other {c : UInt8} (hslash : c ≠ 0x5C) (hquote : c ≠ 0x22) (s : Bytes) :
    weigh (c :: s) = weigh s := by
  simp [weigh, hslash, hquote]

theorem weighLine_backslash (n : ℕ) (rest : Bytes) :
    weighLine n (0x5C :: rest) = weighLine (n + 1) rest := by
  rw [weighLine, if_pos rfl]

theorem weighLine_quote (n : ℕ) (rest : Bytes) :
    weighLine n (0x22 :: rest) = n + weighLine 0 rest := by
  rw [weighLine, if_neg (by decide), if_pos rfl]

theorem weighLine_other {c : UInt8} (hslash : c ≠ 0x5C) (hquote : c ≠ 0x22) (n : ℕ)
    (rest : Bytes) : weighLine n (c :: rest) = 2 * n + weighLine 0 rest := by
  rw [weighLine, if_neg hslash, if_neg hquote]

theorem sum_weigh_flush (slashes : ℕ) (arg : Option Bytes) :
    ((flush slashes arg).toList.map weigh).sum = weigh (arg.getD []) + 2 * slashes := by
  rw [flush]
  split
  · next h => rcases arg with - | arg <;> simp [h]
  · simp

/-- **What the arguments weigh is what the line weighs.** -/
theorem sum_weigh_scan (quoted : Bool) (slashes : ℕ) (arg : Option Bytes) (line : Bytes) :
    ((scan quoted slashes arg line).map weigh).sum =
      weigh (arg.getD []) + weighLine slashes line := by
  induction line generalizing quoted slashes arg with
  | nil => exact sum_weigh_flush slashes arg
  | cons c rest ih =>
    rcases eq_or_ne c 0x5C with rfl | hslash
    · rw [scan_backslash, weighLine_backslash, ih]
    rcases eq_or_ne c 0x22 with rfl | hquote
    · -- the backslashes are worth one each, be their number even or odd
      rw [scan_quote, weighLine_quote]
      split
      · rw [ih, Option.getD_some, weigh_append, weigh_append, weigh_replicate,
          show weigh [0x22] = 1 from rfl]
        omega
      · rw [ih, Option.getD_some, weigh_append, weigh_replicate]
        omega
    rw [weighLine_other hslash hquote]
    rcases hblank : isSpaceOrTab c && !quoted
    · rw [scan_other quoted slashes arg rest hslash hquote hblank, ih, Option.getD_some,
        weigh_append, weigh_append, weigh_replicate, weigh_cons_other hslash hquote, weigh_nil]
      omega
    · obtain ⟨hc, hq⟩ := Bool.and_eq_true_iff.1 hblank
      obtain rfl : quoted = false := by simpa using hq
      rw [scan_blank slashes arg rest hc, List.map_append, List.sum_append, sum_weigh_flush, ih,
        Option.getD_none, weigh_nil]
      omega

end Argv
