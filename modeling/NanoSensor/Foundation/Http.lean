import Mathlib.Data.List.DropRight
import NanoSensor.Foundation.Bytes
import NanoSensor.Foundation.Getline

/-!
# HTTP requests

A request as it stands on the wire, and a reader for it: a line of three words, headers up to an
empty line, and as many bytes of body as `Content-Length` says. Lines end at a line feed, with or
without a carriage return in front of it, and blanks around the value of a header do not count.

`read_write` is the round trip: what is written is read back, and the reader stops at the end of the
body whatever stands behind it.
-/

namespace Http

open Bytes

/-- A request. -/
structure Request where
  method : Bytes
  target : Bytes
  version : Bytes
  headers : List (Bytes × Bytes)
  body : Bytes
  deriving DecidableEq

/-- Carriage return and line feed. -/
def crlf : Bytes :=
  [0x0D, 0x0A]

/-! ### Writing -/

/-- The lines of a request in front of the empty one. -/
def headLines (r : Request) : List Bytes :=
  (r.method ++ 0x20 :: (r.target ++ 0x20 :: r.version)) ::
    r.headers.map fun header ↦ header.1 ++ 0x3A :: 0x20 :: header.2

/-- The text of a request. -/
def write (r : Request) : Bytes :=
  (headLines r).flatMap (· ++ crlf) ++ crlf ++ r.body

/-! ### Reading -/

/-- A line without its carriage return. -/
def chomp (line : Bytes) : Bytes :=
  if line.getLast? = some 0x0D then line.dropLast else line

/-- The lines up to an empty one, and what stands behind it. -/
def readLines (s : Bytes) : Option (List Bytes × Bytes) :=
  match _h : Delimited.getline 0x0A s with
  | none => none
  | some (line, rest) =>
    if chomp line = [] then some ([], rest)
    else (readLines rest).map fun read ↦ (chomp line :: read.1, read.2)
termination_by s.length
decreasing_by exact Delimited.length_lt_of_getline _ _h

/-- The name and the value of a header. -/
def readHeader (line : Bytes) : Option (Bytes × Bytes) :=
  match line.dropWhile (· ≠ 0x3A) with
  | [] => none
  | _ :: value =>
    some (line.takeWhile (· ≠ 0x3A), (value.dropWhile isSpaceOrTab).rdropWhile isSpaceOrTab)

/-- The value of a header; case does not matter in its name. -/
def lookup (name : Bytes) (headers : List (Bytes × Bytes)) : Option Bytes :=
  (headers.find? fun header ↦ header.1.map lower = name.map lower).map Prod.snd

/-- The request at the beginning of a text, and what stands behind it. -/
def read (s : Bytes) : Option (Request × Bytes) := do
  let (lines, rest) ← readLines s
  match lines with
  | [] => none
  | start :: headers =>
    match start.splitOn 0x20 with
    | [method, target, version] => do
      let headers ← headers.mapM readHeader
      let value ← lookup (ofString "content-length") headers
      let length := natOfDigits value
      if value ≠ [] ∧ value.all isDigit ∧ length ≤ rest.length then
        some (⟨method, target, version, headers, rest.take length⟩, rest.drop length)
      else none
    | _ => none

/-! ### The round trip -/

/-- No white space. -/
def IsWord (s : Bytes) : Prop :=
  ∀ b ∈ s, isSpace b = false

instance (s : Bytes) : Decidable (IsWord s) :=
  inferInstanceAs (Decidable (∀ b ∈ s, isSpace b = false))

/-- A request that can be written: everything in its head is free of white space, no name has a
colon, and the length is that of the body. -/
structure Request.WellFormed (r : Request) : Prop where
  method : IsWord r.method
  target : IsWord r.target
  version : IsWord r.version
  names : ∀ header ∈ r.headers, IsWord header.1 ∧ (0x3A : UInt8) ∉ header.1
  values : ∀ header ∈ r.headers, IsWord header.2
  length : lookup (ofString "content-length") r.headers = some (decimal r.body.length)

theorem IsWord.not_mem {s : Bytes} (h : IsWord s) {b : UInt8} (hb : isSpace b = true) : b ∉ s :=
  fun hmem ↦ by
    have := h b hmem
    rw [hb] at this
    cases this

theorem chomp_append (line : Bytes) : chomp (line ++ [0x0D]) = line := by
  rw [chomp, if_pos List.getLast?_concat, List.dropLast_concat]

theorem readLines_line {line : Bytes} (hline : (0x0A : UInt8) ∉ line) (rest : Bytes) :
    readLines (line ++ crlf ++ rest) =
      if line = [] then some ([], rest)
      else (readLines rest).map fun read ↦ (line :: read.1, read.2) := by
  have hsplit : line ++ crlf ++ rest = (line ++ [0x0D]) ++ 0x0A :: rest := by
    simp [crlf]
  have hnot : (0x0A : UInt8) ∉ line ++ [0x0D] := by
    simp [hline]
  rw [hsplit, readLines]
  split
  · next hnone =>
    rw [Delimited.getline_terminated hnot] at hnone
    cases hnone
  · next line' rest' hsome =>
    rw [Delimited.getline_terminated hnot] at hsome
    obtain ⟨rfl, rfl⟩ := Prod.mk.inj (Option.some.inj hsome)
    rw [chomp_append]

/-- The reader gets the lines back. -/
theorem readLines_flatMap {lines : List Bytes}
    (h : ∀ line ∈ lines, line ≠ [] ∧ (0x0A : UInt8) ∉ line)
    (rest : Bytes) :
    readLines (lines.flatMap (· ++ crlf) ++ crlf ++ rest) = some (lines, rest) := by
  induction lines with
  | nil =>
    have hempty := readLines_line (show (0x0A : UInt8) ∉ [] from List.not_mem_nil) rest
    rwa [if_pos rfl] at hempty
  | cons line lines ih =>
    rw [List.forall_mem_cons] at h
    have hline := readLines_line h.1.2 (lines.flatMap (· ++ crlf) ++ crlf ++ rest)
    rw [if_neg h.1.1, ih h.2] at hline
    rw [List.flatMap_cons, List.append_assoc, List.append_assoc, ← List.append_assoc _ crlf]
    exact hline

theorem isSpace_of_isSpaceOrTab {b : UInt8} (h : isSpaceOrTab b = true) : isSpace b = true := by
  rw [isSpaceOrTab, Bool.or_eq_true, beq_iff_eq, beq_iff_eq] at h
  rcases h with rfl | rfl <;> rfl

theorem IsWord.not_isSpaceOrTab {s : Bytes} (h : IsWord s) {b : UInt8} (hb : b ∈ s) :
    ¬ isSpaceOrTab b = true := by
  intro hblank
  exact h.not_mem (isSpace_of_isSpaceOrTab hblank) hb

/-- A word has no blanks around it. -/
theorem strip_word {s : Bytes} (h : IsWord s) :
    ((0x20 :: s).dropWhile isSpaceOrTab).rdropWhile isSpaceOrTab = s := by
  have hfront : (0x20 :: s).dropWhile isSpaceOrTab = s := by
    rw [List.dropWhile_cons_of_pos rfl, List.dropWhile_eq_self_iff]
    exact fun hl ↦ h.not_isSpaceOrTab (List.getElem_mem hl)
  rw [hfront, List.rdropWhile_eq_self_iff]
  exact fun hl ↦ h.not_isSpaceOrTab (List.getLast_mem hl)

theorem readHeader_line {name value : Bytes} (hname : (0x3A : UInt8) ∉ name)
    (hvalue : IsWord value) :
    readHeader (name ++ 0x3A :: 0x20 :: value) = some (name, value) := by
  have hp : ∀ b ∈ name, decide (b ≠ (0x3A : UInt8)) = true := fun b hb ↦
    decide_eq_true fun heq ↦ hname (heq ▸ hb)
  have htake : (name ++ 0x3A :: 0x20 :: value).takeWhile (· ≠ 0x3A) = name := by
    rw [List.takeWhile_append_of_pos hp]
    simp
  have hdrop : (name ++ 0x3A :: 0x20 :: value).dropWhile (· ≠ 0x3A) = 0x3A :: 0x20 :: value := by
    rw [List.dropWhile_append_of_pos hp]
    simp
  rw [readHeader, hdrop, htake]
  exact congrArg (fun v ↦ some (name, v)) (strip_word hvalue)

theorem mapM_readHeader {headers : List (Bytes × Bytes)}
    (hnames : ∀ header ∈ headers, IsWord header.1 ∧ (0x3A : UInt8) ∉ header.1)
    (hvalues : ∀ header ∈ headers, IsWord header.2) :
    (headers.map fun header ↦ header.1 ++ 0x3A :: 0x20 :: header.2).mapM readHeader =
      some headers := by
  induction headers with
  | nil => rfl
  | cons header headers ih =>
    rw [List.forall_mem_cons] at hnames hvalues
    rw [List.map_cons, List.mapM_cons, readHeader_line hnames.1.2 hvalues.1, ih hnames.2 hvalues.2]
    rfl

theorem headLines_spec {r : Request} (h : r.WellFormed) :
    ∀ line ∈ headLines r, line ≠ [] ∧ (0x0A : UInt8) ∉ line := by
  have hlf : isSpace 0x0A = true := rfl
  refine List.forall_mem_cons.2
    ⟨⟨by simp, ?_⟩, List.forall_mem_map.2 fun header hmem ↦ ⟨by simp, ?_⟩⟩
  · simp [h.method.not_mem hlf, h.target.not_mem hlf, h.version.not_mem hlf]
  · simp [(h.names header hmem).1.not_mem hlf, (h.values header hmem).not_mem hlf]

theorem splitOn_start {r : Request} (h : r.WellFormed) :
    (r.method ++ 0x20 :: (r.target ++ 0x20 :: r.version)).splitOn 0x20 =
      [r.method, r.target, r.version] := by
  have hwords : ∀ w ∈ [r.method, r.target, r.version], ¬ (0x20 : UInt8) ∈ w := by
    have hspace : isSpace 0x20 = true := rfl
    simp [h.method.not_mem hspace, h.target.not_mem hspace, h.version.not_mem hspace]
  have hsplit := List.splitOn_intercalate 0x20 hwords (by simp)
  rwa [show [(0x20 : UInt8)].intercalate [r.method, r.target, r.version] =
    r.method ++ 0x20 :: (r.target ++ 0x20 :: r.version) by simp [List.intercalate]] at hsplit

/-- **What is written is read back**, and no more than that. -/
theorem read_write {r : Request} (h : r.WellFormed) (rest : Bytes) :
    read (write r ++ rest) = some (r, rest) := by
  have hlines : readLines (write r ++ rest) = some (headLines r, r.body ++ rest) := by
    rw [write, List.append_assoc]
    exact readLines_flatMap (headLines_spec h) _
  have hdigits : (decimal r.body.length).all isDigit = true :=
    List.all_eq_true.2 fun b hb ↦ isDigit_of_mem_decimal hb
  rw [read, hlines]
  simp only [Option.bind_eq_bind, Option.bind_some, headLines, splitOn_start h,
    mapM_readHeader h.names h.values, h.length, natOfDigits_decimal, hdigits]
  rw [if_pos ⟨decimal_ne_nil _, trivial, by rw [List.length_append]; omega⟩, List.take_left',
    List.drop_left']
  · rfl
  · rfl

end Http
