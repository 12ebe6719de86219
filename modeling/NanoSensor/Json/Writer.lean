import NanoSensor.Foundation.JsonText

/-!
# The JSON writer

`json_escape` and `JsonWriter` of `src/json.cpp`. The writer keeps the text written so far and, for
each open container, how many elements it has; a call appends to the text and adjusts the counts.

What the calls mean is said by running the reader of `Foundation.JsonText` along: `Reads r₀ w ...`
says where a reader that started in `r₀` is after the text of `w`. Every call has one lemma that
moves this along, for the compact and the indented layout alike, and a sequence of calls is the
sequence of its lemmas.

Whether the text is UTF-8 is a second question, with one lemma per call as well: a call adds ASCII
text and escaped strings, and the text stays well-formed exactly when those strings are.

The overload of `field` for `double` is in `Agent.Control`, with the answers that call it. The
element counts are `int` in the source and natural numbers here.
-/

namespace NanoSensor

open Bytes Utf8

/-! ### Escaping -/

/-- `kHex`. -/
def kHex : Bytes := ofString "0123456789abcdef"

/-- The text `json_escape` appends for one byte. -/
def escapeByte (c : UInt8) : Bytes :=
  match c with
  | 0x22 => ofString "\\\""
  | 0x5C => ofString "\\\\"
  | 0x08 => ofString "\\b"
  | 0x0C => ofString "\\f"
  | 0x0A => ofString "\\n"
  | 0x0D => ofString "\\r"
  | 0x09 => ofString "\\t"
  | _ =>
    if c < 0x20 then
      ofString "\\u00" ++ [kHex.getD ((c >>> 4) &&& 0xF).toNat 0, kHex.getD (c &&& 0xF).toNat 0]
    else [c]

/-- `json_escape`. -/
def jsonEscape (s : Bytes) : Bytes :=
  s.flatMap escapeByte

/-- What a reader makes of the text for one byte. -/
def pieceOf (c : UInt8) : Json.Piece :=
  if c < 0x20 ∧ c ∉ [0x08, 0x0C, 0x0A, 0x0D, 0x09] then .unit c.toNat else .byte c

/-- Bytes that need no escape stand for themselves. -/
theorem escapeByte_of_plain {c : UInt8} (hquote : c ≠ 0x22) (hslash : c ≠ 0x5C)
    (hprint : ¬ c < 0x20) : escapeByte c = [c] := by
  have hne : ∀ d : UInt8, d < 0x20 → c ≠ d := fun d hd heq ↦ hprint (heq ▸ hd)
  rw [escapeByte, if_neg hprint]
  · exact hquote
  · exact hslash
  · exact hne _ (by decide)
  · exact hne _ (by decide)
  · exact hne _ (by decide)
  · exact hne _ (by decide)
  · exact hne _ (by decide)

/-- **One byte reads back as itself.** -/
theorem writesPieces_escapeByte (c : UInt8) : Json.WritesPieces (escapeByte c) [pieceOf c] := by
  by_cases hctl : c < 0x20
  · -- the control characters, one by one
    refine forall_of_forall_ofNat (p := fun c ↦ Json.WritesPieces (escapeByte c) [pieceOf c])
      (n := 0x20) (fun k hk ↦ ?_) (UInt8.lt_iff_toNat_lt.1 hctl)
    intro stack isKey front
    interval_cases k <;> rfl
  · by_cases hquote : c = 0x22
    · subst hquote
      exact fun stack isKey front ↦ rfl
    · by_cases hslash : c = 0x5C
      · subst hslash
        exact fun stack isKey front ↦ rfl
      · intro stack isKey front
        have hstep : Json.step ⟨stack, .str isKey front⟩ c =
            some ⟨stack, .str isKey (front ++ [.byte c])⟩ := by
          simp only [Json.step, if_neg hquote, if_neg hslash, if_neg hctl]
        rw [escapeByte_of_plain hquote hslash hctl, Json.run_cons, hstep, pieceOf,
          if_neg fun h ↦ hctl h.1]
        rfl

/-- **An escaped string reads back as itself.** -/
theorem writesPieces_jsonEscape (s : Bytes) : Json.WritesPieces (jsonEscape s) (s.map pieceOf) := by
  induction s with
  | nil => exact fun stack isKey front ↦ by rw [List.map_nil, List.append_nil]; rfl
  | cons c s ih =>
    rw [jsonEscape, List.flatMap_cons, List.map_cons]
    exact (writesPieces_escapeByte c).append ih

theorem decode_map_pieceOf (s : Bytes) : Json.decode (s.map pieceOf) = s := by
  induction s with
  | nil => rfl
  | cons c s ih =>
    rw [List.map_cons, pieceOf]
    split
    · next h =>
      have hc : c.toNat < 0x20 := UInt8.lt_iff_toNat_lt.1 h.1
      have hpoint : ∀ k < 0x20, Json.encodePoint k = [UInt8.ofNat k] := by decide
      rw [Json.decode_unit_cons (by omega), ih, hpoint _ hc, UInt8.ofNat_toNat]
      rfl
    · rw [Json.decode, ih]

/-- Escaping keeps the encoding as it is. -/
theorem valid_jsonEscape_iff (s : Bytes) : Valid (jsonEscape s) ↔ Valid s := by
  refine valid_flatMap_iff (fun b hb ↦ ?_) (fun b hb ↦ ?_) s
  · refine forall_of_forall_ofNat (p := fun b ↦ IsAscii (escapeByte b) ∧ escapeByte b ≠ [])
      (n := 0x80) ?_ (UInt8.lt_iff_toNat_lt.1 hb)
    decide +kernel
  · have hne : ∀ d : UInt8, d < 0x80 → b ≠ d := fun d hd heq ↦ hb (heq ▸ hd)
    refine escapeByte_of_plain (hne _ (by decide)) (hne _ (by decide)) fun h ↦ hb ?_
    exact UInt8.lt_trans h (by decide)

/-! ### The writer -/

/-- `class JsonWriter`. -/
structure JsonWriter where
  out : Bytes
  /-- The element counts of the open containers, innermost first. -/
  counts : List ℕ
  pretty : Bool

/-- `"%lld"`. -/
def i64Text (value : Int64) : Bytes :=
  if value.toInt < 0 then 0x2D :: decimal value.toInt.natAbs else decimal value.toInt.natAbs

namespace JsonWriter

/-- The constructor. -/
def new (pretty : Bool) : JsonWriter :=
  ⟨[], [], pretty⟩

/-- `out_ += text`. -/
def raw (w : JsonWriter) (text : Bytes) : JsonWriter :=
  { w with out := w.out ++ text }

/-- A line feed and two blanks for each open container. -/
def indentation (w : JsonWriter) : Bytes :=
  0x0A :: List.replicate (w.counts.length * 2) 0x20

/-- `newline_indent`. -/
def newlineIndent (w : JsonWriter) : JsonWriter :=
  if !w.pretty || w.counts.isEmpty then w else w.raw w.indentation

/-- `separator`. -/
def separator (w : JsonWriter) : JsonWriter :=
  newlineIndent <|
    match w.counts with
    | [] => w
    | n :: counts => { w.raw (if n > 0 then [0x2C] else []) with counts := (n + 1) :: counts }

/-- `write_quoted`. -/
def writeQuoted (w : JsonWriter) (s : Bytes) : JsonWriter :=
  ((w.raw [0x22]).raw (jsonEscape s)).raw [0x22]

/-- `write_key`. -/
def writeKey (w : JsonWriter) (key : Bytes) : JsonWriter :=
  (w.writeQuoted key).raw (if w.pretty then ofString ": " else ofString ":")

/-- Open a container with the bracket `bracket`. -/
def openWith (w : JsonWriter) (bracket : UInt8) : JsonWriter :=
  { w.raw [bracket] with counts := 0 :: w.counts }

/-- Close the innermost container with the bracket `bracket`. -/
def closeWith (w : JsonWriter) (bracket : UInt8) : JsonWriter :=
  let n := w.counts.headD 0
  let w := { w with counts := w.counts.tail }
  let w := if w.pretty && n > 0 then w.raw w.indentation else w
  w.raw [bracket]

/-- `begin_object()`: the root, or an element of an array. -/
def beginObject (w : JsonWriter) : JsonWriter :=
  w.separator.openWith 0x7B

/-- `begin_object(key)`. -/
def beginObjectKey (w : JsonWriter) (key : Bytes) : JsonWriter :=
  (w.separator.writeKey key).openWith 0x7B

/-- `end_object`. -/
def endObject (w : JsonWriter) : JsonWriter :=
  w.closeWith 0x7D

/-- `begin_array(key)`. -/
def beginArray (w : JsonWriter) (key : Bytes) : JsonWriter :=
  (w.separator.writeKey key).openWith 0x5B

/-- `end_array`. -/
def endArray (w : JsonWriter) : JsonWriter :=
  w.closeWith 0x5D

/-- `field` of a string. -/
def field (w : JsonWriter) (key value : Bytes) : JsonWriter :=
  (w.separator.writeKey key).writeQuoted value

/-- `field` of a truth value. -/
def fieldBool (w : JsonWriter) (key : Bytes) (value : Bool) : JsonWriter :=
  (w.separator.writeKey key).raw (if value then ofString "true" else ofString "false")

/-- `field_i64`. -/
def fieldI64 (w : JsonWriter) (key : Bytes) (value : Int64) : JsonWriter :=
  (w.separator.writeKey key).raw (i64Text value)

/-- `field_null`. -/
def fieldNull (w : JsonWriter) (key : Bytes) : JsonWriter :=
  (w.separator.writeKey key).raw (ofString "null")

/-- `value`: an element of an array. -/
def value (w : JsonWriter) (v : Bytes) : JsonWriter :=
  w.separator.writeQuoted v

@[simp] theorem raw_out (w : JsonWriter) (text : Bytes) : (w.raw text).out = w.out ++ text := rfl

@[simp] theorem raw_counts (w : JsonWriter) (text : Bytes) : (w.raw text).counts = w.counts := rfl

theorem raw_raw (w : JsonWriter) (a b : Bytes) : (w.raw a).raw b = w.raw (a ++ b) := by
  simp [raw]

theorem writeQuoted_eq (w : JsonWriter) (s : Bytes) :
    w.writeQuoted s = w.raw (0x22 :: (jsonEscape s ++ [0x22])) := by
  rw [writeQuoted, raw_raw, raw_raw]
  simp

theorem writeKey_out (w : JsonWriter) (key : Bytes) :
    (w.writeKey key).out =
      w.out ++ (0x22 :: (jsonEscape key ++ [0x22, 0x3A])) ++ if w.pretty then [0x20] else [] := by
  have hcolon : ofString ":" = [0x3A] := by decide
  have hcolonBlank : ofString ": " = [0x3A, 0x20] := by decide
  rw [writeKey, writeQuoted_eq, raw_raw, raw_out, hcolon, hcolonBlank]
  split <;> simp

/-- What closing a container with `n` elements does. -/
theorem closeWith_spec {w : JsonWriter} {n : ℕ} {counts : List ℕ} (h : w.counts = n :: counts)
    (bracket : UInt8) :
    (w.closeWith bracket).counts = counts ∧
      (w.closeWith bracket).out = w.out ++
        ((if w.pretty ∧ 0 < n then indentation { w with counts := counts } else []) ++
          [bracket]) := by
  obtain ⟨out, cs, pretty⟩ := w
  obtain rfl : cs = n :: counts := h
  by_cases hcond : pretty ∧ 0 < n
  · simp [closeWith, raw, hcond]
  · simp [closeWith, raw, hcond]

/-! ### Reading along -/

/-- What may follow the opening bracket of a container. -/
def openMode : Json.Frame → Json.Mode
  | .arr _ => .value true
  | .obj _ | .member _ _ => .key true

/-- A reader that started in `r₀` has read the text of `w`: it is in the container `frame` inside
`stack`, which has `n` elements so far; the counts of the containers around it are `counts`. -/
structure Reads (r₀ : Json.Reader) (w : JsonWriter) (frame : Json.Frame) (stack : List Json.Frame)
    (n : ℕ) (counts : List ℕ) : Prop where
  counts_eq : w.counts = n :: counts
  opened : n = 0 → Json.run r₀ w.out = some ⟨frame :: stack, openMode frame⟩
  filled : 0 < n → ∃ r, Json.run r₀ w.out = some r ∧ Json.Settles r ⟨frame :: stack, .after⟩

/-- A reader that started in `r₀` has read the text of `w` and is at a place for a value inside
`stack`; the counts are `counts`. -/
structure AwaitsValue (r₀ : Json.Reader) (w : JsonWriter) (stack : List Json.Frame)
    (counts : List ℕ) : Prop where
  counts_eq : w.counts = counts
  run_eq : ∃ mayClose, Json.run r₀ w.out = some ⟨stack, .value mayClose⟩

section Reading

variable {r₀ : Json.Reader} {w : JsonWriter} {frame outer : Json.Frame} {stack : List Json.Frame}
  {n m : ℕ} {counts : List ℕ} {members : List (Bytes × Json)} {items : List Json} {v : Json}

theorem isWs_of_mem_indentation (w : JsonWriter) : ∀ b ∈ w.indentation, Json.isWs b = true := by
  intro b hb
  rcases List.mem_cons.1 hb with rfl | hb
  · rfl
  · rw [List.eq_of_mem_replicate hb]
    rfl

/-- A line break is skipped. -/
theorem run_newlineIndent {r : Json.Reader} (h : Json.run r₀ w.out = some r)
    (hskip : r.mode.skipsWs = true) : Json.run r₀ w.newlineIndent.out = some r := by
  rw [newlineIndent]
  split
  · exact h
  · rw [raw_out, Json.run_append, h]
    exact Json.run_ws hskip w.isWs_of_mem_indentation

theorem newlineIndent_counts (w : JsonWriter) : w.newlineIndent.counts = w.counts := by
  rw [newlineIndent]
  split <;> rfl

/-- `separator` writes the comma that a non-empty container needs. -/
theorem Reads.separator (h : Reads r₀ w frame stack n counts) (comma : Json.Mode)
    (hcomma : Json.step ⟨frame :: stack, .after⟩ 0x2C = some ⟨frame :: stack, comma⟩)
    (hskip : comma.skipsWs = true) :
    w.separator.counts = (n + 1) :: counts ∧
      Json.run r₀ w.separator.out =
        some ⟨frame :: stack, if n = 0 then openMode frame else comma⟩ := by
  rw [JsonWriter.separator, h.counts_eq]
  refine ⟨newlineIndent_counts _, run_newlineIndent ?_ ?_⟩
  · show Json.run r₀ (w.out ++ if n > 0 then [0x2C] else []) = _
    rcases Nat.eq_zero_or_pos n with rfl | hn
    · rw [if_neg (lt_irrefl 0), List.append_nil, h.opened rfl, if_pos rfl]
    · obtain ⟨r, hrun, hsettles⟩ := h.filled hn
      rw [if_pos hn, Json.run_append, hrun, Option.bind_some, hsettles.run_cons rfl, Json.run_cons,
        hcomma, if_neg hn.ne']
      rfl
  · split
    · cases frame <;> rfl
    · exact hskip

/-- `separator` and `write_key`, in an object. -/
theorem Reads.key (h : Reads r₀ w (.obj members) stack n counts) (key : Bytes) :
    AwaitsValue r₀ (w.separator.writeKey key) (.member members key :: stack)
      ((n + 1) :: counts) := by
  obtain ⟨hcounts, hrun⟩ := h.separator (.key false) rfl rfl
  obtain ⟨mayClose, hmode⟩ : ∃ mayClose,
      (if n = 0 then openMode (.obj members) else .key false) = Json.Mode.key mayClose := by
    split
    · exact ⟨true, rfl⟩
    · exact ⟨false, rfl⟩
  have hkey := (writesPieces_jsonEscape key).run_key members stack mayClose
  rw [decode_map_pieceOf] at hkey
  refine ⟨hcounts, false, ?_⟩
  rw [writeKey_out, Json.run_append, Json.run_append, hrun, hmode, Option.bind_some, hkey,
    Option.bind_some]
  exact Json.run_ws rfl (by split <;> simp [Json.isWs])

/-- `separator`, in an array. -/
theorem Reads.element (h : Reads r₀ w (.arr items) stack n counts) :
    AwaitsValue r₀ w.separator (.arr items :: stack) ((n + 1) :: counts) := by
  obtain ⟨hcounts, hrun⟩ := h.separator (.value false) rfl rfl
  refine ⟨hcounts, decide (n = 0), hrun.trans ?_⟩
  rcases Nat.eq_zero_or_pos n with rfl | hn
  · rfl
  · rw [if_neg hn.ne', decide_eq_false hn.ne']

/-- The text of a value where one may stand. -/
theorem AwaitsValue.raw (h : AwaitsValue r₀ w (outer :: stack) ((n + 1) :: counts)) {text : Bytes}
    (htext : Json.Writes text v)
    (hsupply : Json.supply v (outer :: stack) = some ⟨frame :: stack, .after⟩) :
    Reads r₀ (w.raw text) frame stack (n + 1) counts := by
  obtain ⟨mayClose, hrun⟩ := h.run_eq
  obtain ⟨r, hr, hsettles⟩ := htext _ mayClose _ hsupply
  refine ⟨h.counts_eq, fun h0 ↦ absurd h0 (Nat.succ_ne_zero n), fun _ ↦ ⟨r, ?_, hsettles⟩⟩
  rw [raw_out, Json.run_append, hrun]
  exact hr

/-- An opening bracket where a value may stand. -/
theorem AwaitsValue.openWith (h : AwaitsValue r₀ w stack counts) {bracket : UInt8}
    (hopen : ∀ mayClose, Json.step ⟨stack, .value mayClose⟩ bracket =
      some ⟨frame :: stack, openMode frame⟩) :
    Reads r₀ (w.openWith bracket) frame stack 0 counts := by
  obtain ⟨mayClose, hrun⟩ := h.run_eq
  refine ⟨by rw [← h.counts_eq]; rfl, fun _ ↦ ?_, fun hn ↦ absurd hn (lt_irrefl 0)⟩
  show Json.run r₀ (w.out ++ [bracket]) = _
  rw [Json.run_append, hrun, Option.bind_some, Json.run_cons, hopen]
  rfl

/-- A closing bracket supplies the container to the one around it. -/
theorem Reads.closeWith (h : Reads r₀ w frame stack n counts) (bracket : UInt8)
    (hbracket : Json.isDelimiter bracket = true)
    (hopen : Json.step ⟨frame :: stack, openMode frame⟩ bracket = Json.supply v stack)
    (hafter : Json.step ⟨frame :: stack, .after⟩ bracket = Json.supply v stack) :
    (w.closeWith bracket).counts = counts ∧
      Json.run r₀ (w.closeWith bracket).out = Json.supply v stack := by
  have hbind : ∀ o : Option Json.Reader, o.bind (Json.run · []) = o := fun o ↦ by
    rcases o with - | r <;> rfl
  obtain ⟨hcounts, hout⟩ := closeWith_spec h.counts_eq bracket
  refine ⟨hcounts, ?_⟩
  rw [hout]
  rcases Nat.eq_zero_or_pos n with rfl | hn
  · rw [if_neg fun hcond ↦ lt_irrefl 0 hcond.2, List.nil_append, Json.run_append, h.opened rfl,
      Option.bind_some, Json.run_cons, hopen, hbind]
  · obtain ⟨r, hrun, hsettles⟩ := h.filled hn
    rw [Json.run_append, hrun, Option.bind_some]
    split
    · -- the line break settles a numeral in progress
      have hskip : Json.run ⟨frame :: stack, .after⟩ (indentation { w with counts := counts }) =
          some ⟨frame :: stack, .after⟩ := Json.run_ws rfl (isWs_of_mem_indentation _)
      rw [indentation] at hskip ⊢
      rw [List.cons_append, hsettles.run_cons rfl, ← List.cons_append, Json.run_append, hskip,
        Option.bind_some, Json.run_cons, hafter, hbind]
    · rw [List.nil_append, hsettles.run_cons hbracket, Json.run_cons, hafter, hbind]

/-! ### One lemma for each call -/

theorem Reads.field (h : Reads r₀ w (.obj members) stack n counts) (key value : Bytes) :
    Reads r₀ (w.field key value) (.obj (members ++ [(key, .str value)])) stack (n + 1) counts := by
  have htext := (writesPieces_jsonEscape value).writes
  rw [decode_map_pieceOf] at htext
  rw [JsonWriter.field, writeQuoted_eq]
  exact (h.key key).raw htext rfl

theorem Reads.fieldBool (h : Reads r₀ w (.obj members) stack n counts) (key : Bytes)
    (value : Bool) :
    Reads r₀ (w.fieldBool key value) (.obj (members ++ [(key, .bool value)])) stack (n + 1)
      counts :=
  (h.key key).raw (Json.writes_bool value) rfl

theorem writes_i64Text (value : Int64) : Json.Writes (i64Text value) (.num (i64Text value)) := by
  rw [i64Text]
  split
  · exact Json.writes_neg_decimal _
  · exact Json.writes_decimal _

theorem Reads.fieldI64 (h : Reads r₀ w (.obj members) stack n counts) (key : Bytes)
    (value : Int64) :
    Reads r₀ (w.fieldI64 key value) (.obj (members ++ [(key, .num (i64Text value))])) stack (n + 1)
      counts :=
  (h.key key).raw (writes_i64Text value) rfl

theorem Reads.fieldNull (h : Reads r₀ w (.obj members) stack n counts) (key : Bytes) :
    Reads r₀ (w.fieldNull key) (.obj (members ++ [(key, .null)])) stack (n + 1) counts :=
  (h.key key).raw Json.writes_null rfl

theorem Reads.value (h : Reads r₀ w (.arr items) stack n counts) (v : Bytes) :
    Reads r₀ (w.value v) (.arr (items ++ [.str v])) stack (n + 1) counts := by
  have htext := (writesPieces_jsonEscape v).writes
  rw [decode_map_pieceOf] at htext
  rw [JsonWriter.value, writeQuoted_eq]
  exact h.element.raw htext rfl

theorem Reads.beginObjectKey (h : Reads r₀ w (.obj members) stack n counts) (key : Bytes) :
    Reads r₀ (w.beginObjectKey key) (.obj []) (.member members key :: stack) 0
      ((n + 1) :: counts) :=
  (h.key key).openWith fun _ ↦ rfl

theorem Reads.beginArray (h : Reads r₀ w (.obj members) stack n counts) (key : Bytes) :
    Reads r₀ (w.beginArray key) (.arr []) (.member members key :: stack) 0 ((n + 1) :: counts) :=
  (h.key key).openWith fun _ ↦ rfl

theorem Reads.beginObject (h : Reads r₀ w (.arr items) stack n counts) :
    Reads r₀ w.beginObject (.obj []) (.arr items :: stack) 0 ((n + 1) :: counts) :=
  h.element.openWith fun _ ↦ rfl

theorem Reads.endObject (h : Reads r₀ w (.obj members) (outer :: stack) n ((m + 1) :: counts))
    (hsupply : Json.supply (.obj members) (outer :: stack) = some ⟨frame :: stack, .after⟩) :
    Reads r₀ w.endObject frame stack (m + 1) counts := by
  obtain ⟨hcounts, hrun⟩ := h.closeWith 0x7D rfl rfl rfl
  exact ⟨hcounts, fun h0 ↦ absurd h0 (Nat.succ_ne_zero m),
    fun _ ↦ ⟨_, hrun.trans hsupply, Or.inl rfl⟩⟩

theorem Reads.endArray (h : Reads r₀ w (.arr items) (outer :: stack) n ((m + 1) :: counts))
    (hsupply : Json.supply (.arr items) (outer :: stack) = some ⟨frame :: stack, .after⟩) :
    Reads r₀ w.endArray frame stack (m + 1) counts := by
  obtain ⟨hcounts, hrun⟩ := h.closeWith 0x5D rfl rfl rfl
  exact ⟨hcounts, fun h0 ↦ absurd h0 (Nat.succ_ne_zero m),
    fun _ ↦ ⟨_, hrun.trans hsupply, Or.inl rfl⟩⟩

/-- The root object of a fresh writer, read wherever a value may stand. -/
theorem reads_beginObject_new (stack : List Json.Frame) (mayClose pretty : Bool) :
    Reads ⟨stack, .value mayClose⟩ (new pretty).beginObject (.obj []) stack 0 [] := by
  have hawaits : AwaitsValue ⟨stack, .value mayClose⟩ (new pretty).separator stack [] := by
    refine ⟨?_, mayClose, ?_⟩ <;> simp [JsonWriter.separator, new, newlineIndent, Json.run_nil]
  exact hawaits.openWith fun _ ↦ rfl

/-- The end of the root object. -/
theorem Reads.endObject_root (h : Reads r₀ w (.obj members) stack n []) :
    Json.run r₀ w.endObject.out = Json.supply (.obj members) stack :=
  (h.closeWith 0x7D rfl rfl rfl).2

/-- A loop that writes the elements of an array. -/
theorem Reads.foldl {α : Type*} {f : JsonWriter → α → JsonWriter} {tree : α → Json}
    (hf : ∀ {w items n} (x : α), Reads r₀ w (.arr items) stack n counts →
      Reads r₀ (f w x) (.arr (items ++ [tree x])) stack (n + 1) counts) (xs : List α) :
    ∀ {w : JsonWriter} {items : List Json} {n : ℕ}, Reads r₀ w (.arr items) stack n counts →
      Reads r₀ (xs.foldl f w) (.arr (items ++ xs.map tree)) stack (n + xs.length) counts := by
  induction xs with
  | nil =>
    intro w items n h
    rwa [List.map_nil, List.append_nil]
  | cons x xs ih =>
    intro w items n h
    have hrest := ih (hf x h)
    rwa [List.append_assoc, Nat.add_assoc, Nat.add_comm 1] at hrest

end Reading

/-! ### The encoding of the text -/

section Encoding

variable (w : JsonWriter) (key : Bytes)

theorem valid_raw {text : Bytes} (htext : IsAscii text) : Valid (w.raw text).out ↔ Valid w.out :=
  valid_append_ascii_iff htext

theorem isAscii_indentation : IsAscii w.indentation := by
  intro b hb
  rcases List.mem_cons.1 hb with rfl | hb
  · decide
  · rw [List.eq_of_mem_replicate hb]
    decide

theorem valid_newlineIndent : Valid w.newlineIndent.out ↔ Valid w.out := by
  rw [newlineIndent]
  split
  · rfl
  · exact w.valid_raw w.isAscii_indentation

theorem valid_separator : Valid w.separator.out ↔ Valid w.out := by
  rw [separator, valid_newlineIndent]
  split
  · rfl
  · exact w.valid_raw (by split <;> decide)

/-- A string in quotes can be cut out of the text. -/
theorem valid_writeQuoted (s : Bytes) : Valid (w.writeQuoted s).out ↔ Valid w.out ∧ Valid s := by
  rw [writeQuoted_eq, raw_out, valid_append_cons_iff (by decide),
    valid_append_ascii_iff (by decide), valid_jsonEscape_iff]

theorem valid_writeKey : Valid (w.writeKey key).out ↔ Valid w.out ∧ Valid key := by
  rw [writeKey, valid_raw _ (by split <;> decide), valid_writeQuoted]

theorem valid_openWith {bracket : UInt8} (hb : bracket < 0x80) :
    Valid (w.openWith bracket).out ↔ Valid w.out :=
  w.valid_raw (by simpa [IsAscii] using hb)

theorem valid_closeWith {bracket : UInt8} (hb : bracket < 0x80) :
    Valid (w.closeWith bracket).out ↔ Valid w.out := by
  rw [closeWith]
  dsimp only
  rw [valid_raw _ (by simpa [IsAscii] using hb)]
  split
  · exact valid_raw _ (isAscii_indentation _)
  · rfl

/-! One lemma for each call: the text stays well-formed exactly when the strings it is given are. -/

@[simp] theorem valid_new (pretty : Bool) : Valid (new pretty).out ↔ True :=
  iff_true_intro valid_nil

@[simp] theorem valid_beginObject : Valid w.beginObject.out ↔ Valid w.out := by
  rw [beginObject, valid_openWith _ (by decide), valid_separator]

@[simp] theorem valid_beginObjectKey :
    Valid (w.beginObjectKey key).out ↔ Valid w.out ∧ Valid key := by
  rw [beginObjectKey, valid_openWith _ (by decide), valid_writeKey, valid_separator]

@[simp] theorem valid_beginArray : Valid (w.beginArray key).out ↔ Valid w.out ∧ Valid key := by
  rw [beginArray, valid_openWith _ (by decide), valid_writeKey, valid_separator]

@[simp] theorem valid_endObject : Valid w.endObject.out ↔ Valid w.out :=
  w.valid_closeWith (by decide)

@[simp] theorem valid_endArray : Valid w.endArray.out ↔ Valid w.out :=
  w.valid_closeWith (by decide)

@[simp] theorem valid_field (value : Bytes) :
    Valid (w.field key value).out ↔ (Valid w.out ∧ Valid key) ∧ Valid value := by
  rw [field, valid_writeQuoted, valid_writeKey, valid_separator]

@[simp] theorem valid_fieldBool (value : Bool) :
    Valid (w.fieldBool key value).out ↔ Valid w.out ∧ Valid key := by
  rw [fieldBool, valid_raw _ (by split <;> decide), valid_writeKey, valid_separator]

theorem isAscii_i64Text (value : Int64) : IsAscii (i64Text value) := by
  have hdecimal : ∀ n, IsAscii (decimal n) := fun n b hb ↦ by
    have hdigit := isDigit_of_mem_decimal hb
    simp only [isDigit, Bool.and_eq_true, decide_eq_true_eq] at hdigit
    exact UInt8.lt_of_le_of_lt hdigit.2 (by decide)
  rw [i64Text]
  split
  · intro b hb
    rcases List.mem_cons.1 hb with rfl | hb
    · decide
    · exact hdecimal _ b hb
  · exact hdecimal _

@[simp] theorem valid_fieldI64 (value : Int64) :
    Valid (w.fieldI64 key value).out ↔ Valid w.out ∧ Valid key := by
  rw [fieldI64, valid_raw _ (isAscii_i64Text value), valid_writeKey, valid_separator]

@[simp] theorem valid_fieldNull : Valid (w.fieldNull key).out ↔ Valid w.out ∧ Valid key := by
  rw [fieldNull, valid_raw _ (by decide), valid_writeKey, valid_separator]

@[simp] theorem valid_value (v : Bytes) : Valid (w.value v).out ↔ Valid w.out ∧ Valid v := by
  rw [value, valid_writeQuoted, valid_separator]

/-- A loop keeps the text well-formed exactly when every turn does. -/
theorem valid_foldl {α : Type*} {f : JsonWriter → α → JsonWriter} {p : α → Prop}
    (hf : ∀ w x, Valid (f w x).out ↔ Valid w.out ∧ p x) (xs : List α) :
    ∀ w : JsonWriter, Valid (xs.foldl f w).out ↔ Valid w.out ∧ ∀ x ∈ xs, p x := by
  induction xs with
  | nil => intro w; simp
  | cons x xs ih => intro w; rw [List.foldl_cons, ih, hf, List.forall_mem_cons, and_assoc]

end Encoding

end JsonWriter

end NanoSensor
