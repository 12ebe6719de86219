import NanoSensor.Json.Writer

/-!
# Everything the JSON writer can be told

A tree here is what a sequence of calls on a `JsonWriter` can spell out: the root is an object, a
member is a string, a truth value, an integer, `null`, an object or an array, and an element of an
array is a string or an object, because those are the calls there are. `Tree.calls` is the sequence.

`ofJson` reads such a tree off a parsed JSON value, with the numerals evaluated, so the round trip
`jsonWriter_round_trip` compares trees and not texts. It is an induction over the tree, one case per
constructor, in which the reader of `Foundation.JsonText` follows the writer call by call.

`log_event` of `src/log.cpp` is one such sequence, on a compact writer. Compact text has no control
characters in it (`Compact`), which is what makes a log event one line.
-/

namespace NanoSensor

open Bytes

/-! ### Trees and calls -/

mutual

/-- The value of a member of an object. -/
inductive Tree
  | str (s : Bytes)
  | bool (b : Bool)
  | int (n : Int64)
  | null
  | obj (members : List (Bytes × Tree))
  | arr (items : List Item)

/-- An element of an array. -/
inductive Item
  | str (s : Bytes)
  | obj (members : List (Bytes × Tree))

end

namespace JsonWriter

/-- A call on a writer. -/
inductive Call
  | beginObject
  | beginObjectKey (key : Bytes)
  | endObject
  | beginArray (key : Bytes)
  | endArray
  | field (key value : Bytes)
  | fieldBool (key : Bytes) (value : Bool)
  | fieldI64 (key : Bytes) (value : Int64)
  | fieldNull (key : Bytes)
  | value (v : Bytes)

def call (w : JsonWriter) : Call → JsonWriter
  | .beginObject => w.beginObject
  | .beginObjectKey key => w.beginObjectKey key
  | .endObject => w.endObject
  | .beginArray key => w.beginArray key
  | .endArray => w.endArray
  | .field key value => w.field key value
  | .fieldBool key value => w.fieldBool key value
  | .fieldI64 key value => w.fieldI64 key value
  | .fieldNull key => w.fieldNull key
  | .value v => w.value v

/-- Calls one after the other. -/
def calls (w : JsonWriter) (cs : List Call) : JsonWriter :=
  cs.foldl call w

theorem calls_cons (w : JsonWriter) (c : Call) (cs : List Call) :
    w.calls (c :: cs) = (w.call c).calls cs := rfl

theorem calls_append (w : JsonWriter) (cs ds : List Call) :
    w.calls (cs ++ ds) = (w.calls cs).calls ds :=
  List.foldl_append

end JsonWriter

open JsonWriter

mutual

/-- The calls for a member. -/
def Tree.calls (key : Bytes) : Tree → List Call
  | .str s => [.field key s]
  | .bool b => [.fieldBool key b]
  | .int n => [.fieldI64 key n]
  | .null => [.fieldNull key]
  | .obj members => .beginObjectKey key :: (membersCalls members ++ [.endObject])
  | .arr items => .beginArray key :: (itemsCalls items ++ [.endArray])

/-- The calls for an element. -/
def Item.calls : Item → List Call
  | .str s => [.value s]
  | .obj members => .beginObject :: (membersCalls members ++ [.endObject])

def membersCalls : List (Bytes × Tree) → List Call
  | [] => []
  | (key, t) :: members => t.calls key ++ membersCalls members

def itemsCalls : List Item → List Call
  | [] => []
  | item :: items => item.calls ++ itemsCalls items

end

/-- The text of a root object with the given members. -/
def treeText (pretty : Bool) (members : List (Bytes × Tree)) : Bytes :=
  ((new pretty).calls (.beginObject :: (membersCalls members ++ [.endObject]))).out

/-! ### Trees and JSON values -/

mutual

/-- The JSON value of a member. -/
def Tree.toJson : Tree → Json
  | .str s => .str s
  | .bool b => .bool b
  | .int n => .num (i64Text n)
  | .null => .null
  | .obj members => .obj (membersToJson members)
  | .arr items => .arr (itemsToJson items)

def Item.toJson : Item → Json
  | .str s => .str s
  | .obj members => .obj (membersToJson members)

def membersToJson : List (Bytes × Tree) → List (Bytes × Json)
  | [] => []
  | (key, t) :: members => (key, t.toJson) :: membersToJson members

def itemsToJson : List Item → List Json
  | [] => []
  | item :: items => item.toJson :: itemsToJson items

end

/-- The natural number of a numeral without sign, fraction or exponent. -/
def naturalOf (ds : Bytes) : Option ℕ :=
  if ds ≠ [] ∧ ds.all isDigit then some (natOfDigits ds) else none

/-- The integer of a numeral without fraction or exponent. -/
def integerOf (numeral : Bytes) : Option ℤ :=
  match numeral with
  | 0x2D :: ds => (naturalOf ds).map fun n : ℕ ↦ -(n : ℤ)
  | ds => (naturalOf ds).map fun n : ℕ ↦ (n : ℤ)

/-- The integer as one of 64 bits, if it fits. -/
def int64Of (i : ℤ) : Option Int64 :=
  if Int64.minValue.toInt ≤ i ∧ i ≤ Int64.maxValue.toInt then some (Int64.ofInt i) else none

mutual

/-- The tree a JSON value is, with its numerals evaluated. -/
def Tree.ofJson : Json → Option Tree
  | .str s => some (.str s)
  | .bool b => some (.bool b)
  | .num numeral => ((integerOf numeral).bind int64Of).map .int
  | .null => some .null
  | .obj members => (membersOfJson members).map .obj
  | .arr items => (itemsOfJson items).map .arr

def Item.ofJson : Json → Option Item
  | .str s => some (.str s)
  | .obj members => (membersOfJson members).map .obj
  | _ => none

def membersOfJson : List (Bytes × Json) → Option (List (Bytes × Tree))
  | [] => some []
  | (key, v) :: members => do
    let t ← Tree.ofJson v
    let rest ← membersOfJson members
    return (key, t) :: rest

def itemsOfJson : List Json → Option (List Item)
  | [] => some []
  | v :: items => do
    let item ← Item.ofJson v
    let rest ← itemsOfJson items
    return item :: rest

end

/-- What a JSON text says, read as the members of a root object. -/
def readTree (text : Bytes) : Option (List (Bytes × Tree)) :=
  (Json.parse text).bind fun
    | .obj members => membersOfJson members
    | _ => none

theorem naturalOf_decimal (n : ℕ) : naturalOf (decimal n) = some n := by
  have hdigits : (decimal n).all isDigit = true :=
    List.all_eq_true.2 fun b hb ↦ isDigit_of_mem_decimal hb
  rw [naturalOf, if_pos ⟨decimal_ne_nil n, hdigits⟩, natOfDigits_decimal]

theorem integerOf_i64Text (value : Int64) : integerOf (i64Text value) = some value.toInt := by
  rw [i64Text]
  split
  · next hneg =>
    rw [integerOf, naturalOf_decimal, Option.map_some]
    congr 1
    omega
  · next hpos =>
    rw [integerOf, naturalOf_decimal, Option.map_some]
    · congr 1
      omega
    · -- a numeral that starts with a digit has no sign
      intro ds heq
      have hdigit : isDigit 0x2D = true :=
        isDigit_of_mem_decimal (n := value.toInt.natAbs) (by rw [heq]; exact List.mem_cons_self)
      exact absurd hdigit (by decide)

/-- **An integer reads back as itself.** -/
theorem int64Of_i64Text (value : Int64) :
    (integerOf (i64Text value)).bind int64Of = some value := by
  have hrange : Int64.minValue.toInt ≤ value.toInt ∧ value.toInt ≤ Int64.maxValue.toInt :=
    ⟨Int64.minValue_le_toInt value, Int64.toInt_le value⟩
  rw [integerOf_i64Text, Option.bind_some, int64Of, if_pos hrange, Int64.ofInt_toInt]

mutual

theorem Tree.ofJson_toJson : ∀ t : Tree, Tree.ofJson t.toJson = some t
  | .str s => rfl
  | .bool b => rfl
  | .int n => by rw [Tree.toJson, Tree.ofJson, int64Of_i64Text]; rfl
  | .null => rfl
  | .obj members => by rw [Tree.toJson, Tree.ofJson, membersOfJson_membersToJson members]; rfl
  | .arr items => by rw [Tree.toJson, Tree.ofJson, itemsOfJson_itemsToJson items]; rfl

theorem Item.ofJson_toJson : ∀ item : Item, Item.ofJson item.toJson = some item
  | .str s => rfl
  | .obj members => by rw [Item.toJson, Item.ofJson, membersOfJson_membersToJson members]; rfl

theorem membersOfJson_membersToJson :
    ∀ members : List (Bytes × Tree), membersOfJson (membersToJson members) = some members
  | [] => rfl
  | (key, t) :: members => by
    rw [membersToJson, membersOfJson, Tree.ofJson_toJson t, membersOfJson_membersToJson members]
    rfl

theorem itemsOfJson_itemsToJson :
    ∀ items : List Item, itemsOfJson (itemsToJson items) = some items
  | [] => rfl
  | item :: items => by
    rw [itemsToJson, itemsOfJson, Item.ofJson_toJson item, itemsOfJson_itemsToJson items]
    rfl

end

/-! ### Reading along -/

mutual

/-- **The calls for a member** take the reader past that member. -/
theorem Tree.reads (t : Tree) {r₀ : Json.Reader} {w : JsonWriter} {members : List (Bytes × Json)}
    {stack : List Json.Frame} {n : ℕ} {counts : List ℕ} (key : Bytes)
    (h : Reads r₀ w (.obj members) stack n counts) :
    Reads r₀ (w.calls (t.calls key)) (.obj (members ++ [(key, t.toJson)])) stack (n + 1)
      counts := by
  match t with
  | .str s => exact h.field key s
  | .bool b => exact h.fieldBool key b
  | .int i => exact h.fieldI64 key i
  | .null => exact h.fieldNull key
  | .obj ms =>
    rw [Tree.calls, calls_cons, calls_append]
    exact (membersReads ms (h.beginObjectKey key)).endObject rfl
  | .arr items =>
    rw [Tree.calls, calls_cons, calls_append]
    exact (itemsReads items (h.beginArray key)).endArray rfl

theorem Item.reads (item : Item) {r₀ : Json.Reader} {w : JsonWriter} {items : List Json}
    {stack : List Json.Frame} {n : ℕ} {counts : List ℕ}
    (h : Reads r₀ w (.arr items) stack n counts) :
    Reads r₀ (w.calls item.calls) (.arr (items ++ [item.toJson])) stack (n + 1) counts := by
  match item with
  | .str s => exact h.value s
  | .obj ms =>
    rw [Item.calls, calls_cons, calls_append]
    exact (membersReads ms h.beginObject).endObject rfl

theorem membersReads (ms : List (Bytes × Tree)) {r₀ : Json.Reader} {w : JsonWriter}
    {members : List (Bytes × Json)} {stack : List Json.Frame} {n : ℕ} {counts : List ℕ}
    (h : Reads r₀ w (.obj members) stack n counts) :
    Reads r₀ (w.calls (membersCalls ms)) (.obj (members ++ membersToJson ms)) stack (n + ms.length)
      counts := by
  match ms with
  | [] =>
    rw [membersToJson, List.append_nil]
    exact h
  | (key, t) :: ms =>
    have hrest := membersReads ms (t.reads key h)
    rw [List.append_assoc, Nat.add_assoc, Nat.add_comm 1] at hrest
    rw [membersCalls, calls_append]
    exact hrest

theorem itemsReads (is : List Item) {r₀ : Json.Reader} {w : JsonWriter} {items : List Json}
    {stack : List Json.Frame} {n : ℕ} {counts : List ℕ}
    (h : Reads r₀ w (.arr items) stack n counts) :
    Reads r₀ (w.calls (itemsCalls is)) (.arr (items ++ itemsToJson is)) stack (n + is.length)
      counts := by
  match is with
  | [] =>
    rw [itemsToJson, List.append_nil]
    exact h
  | item :: is =>
    have hrest := itemsReads is (item.reads h)
    rw [List.append_assoc, Nat.add_assoc, Nat.add_comm 1] at hrest
    rw [itemsCalls, calls_append]
    exact hrest

end

/-- **A tree reads back as itself**, in either layout. -/
theorem readTree_treeText (pretty : Bool) (members : List (Bytes × Tree)) :
    readTree (treeText pretty members) = some members := by
  have hread := membersReads members (reads_beginObject_new [] false pretty)
  rw [List.nil_append] at hread
  have hrun : Json.run ⟨[], .value false⟩ (treeText pretty members) =
      some ⟨[], .done (.obj (membersToJson members))⟩ := by
    rw [treeText, calls_cons, calls_append]
    exact hread.endObject_root
  rw [readTree, Json.parse, hrun]
  exact membersOfJson_membersToJson members

/-! ### Compact text -/

/-- No control characters. -/
def Printable (text : Bytes) : Prop :=
  ∀ b ∈ text, 0x20 ≤ b

instance (text : Bytes) : Decidable (Printable text) :=
  List.decidableBAll _ text

theorem Printable.append {a b : Bytes} (ha : Printable a) (hb : Printable b) : Printable (a ++ b) :=
  fun c hc ↦ (List.mem_append.1 hc).elim (ha c) (hb c)

/-- **The escaper leaves no control character.** -/
theorem printable_jsonEscape (s : Bytes) : Printable (jsonEscape s) := by
  have hbyte : ∀ c, Printable (escapeByte c) := fun c ↦ by
    by_cases hctl : c < 0x20
    · refine forall_of_forall_ofNat (p := fun c ↦ Printable (escapeByte c)) (n := 0x20) ?_
        (UInt8.lt_iff_toNat_lt.1 hctl)
      decide +kernel
    · by_cases hquote : c = 0x22
      · rw [hquote]
        decide
      · by_cases hslash : c = 0x5C
        · rw [hslash]
          decide
        · rw [escapeByte_of_plain hquote hslash hctl]
          exact List.forall_mem_singleton.2 (UInt8.not_lt.1 hctl)
  intro b hb
  obtain ⟨c, -, hb⟩ := List.mem_flatMap.1 hb
  exact hbyte c b hb

theorem printable_i64Text (value : Int64) : Printable (i64Text value) := by
  have hdecimal : ∀ n, Printable (decimal n) := fun n b hb ↦ by
    have hdigit := isDigit_of_mem_decimal hb
    simp only [isDigit, Bool.and_eq_true, decide_eq_true_eq] at hdigit
    exact UInt8.le_trans (by decide) hdigit.1
  rw [i64Text]
  split
  · exact List.forall_mem_cons.2 ⟨by decide, hdecimal _⟩
  · exact hdecimal _

namespace JsonWriter

/-- A compact writer whose text has no control characters so far. -/
structure Compact (w : JsonWriter) : Prop where
  pretty : w.pretty = false
  printable : Printable w.out

namespace Compact

variable {w : JsonWriter}

theorem raw (h : w.Compact) {text : Bytes} (htext : Printable text) : (w.raw text).Compact :=
  ⟨h.pretty, h.printable.append htext⟩

theorem separator (h : w.Compact) : w.separator.Compact := by
  have hline : ∀ {w : JsonWriter}, w.Compact → w.newlineIndent.Compact := fun {w} h ↦ by
    rw [newlineIndent, h.pretty]
    exact h
  rw [JsonWriter.separator]
  refine hline ?_
  split
  · exact h
  · exact ⟨h.pretty, h.printable.append (by split <;> simp [Printable])⟩

theorem writeQuoted (h : w.Compact) (s : Bytes) : (w.writeQuoted s).Compact :=
  ((h.raw (by simp [Printable])).raw (printable_jsonEscape s)).raw (by simp [Printable])

theorem key (h : w.Compact) (key : Bytes) : (w.separator.writeKey key).Compact :=
  (h.separator.writeQuoted key).raw (by split <;> decide)

theorem openWith (h : w.Compact) {bracket : UInt8} (hb : 0x20 ≤ bracket) :
    (w.openWith bracket).Compact :=
  ⟨h.pretty, h.printable.append (by simpa [Printable] using hb)⟩

theorem closeWith (h : w.Compact) {bracket : UInt8} (hb : 0x20 ≤ bracket) :
    (w.closeWith bracket).Compact := by
  have hout : (w.closeWith bracket).out = w.out ++ [bracket] := by
    simp [JsonWriter.closeWith, h.pretty]
  have hpretty : (w.closeWith bracket).pretty = false := by
    simp [JsonWriter.closeWith, JsonWriter.raw, h.pretty]
  exact ⟨hpretty, hout ▸ h.printable.append (by simpa [Printable] using hb)⟩

/-- **Every call keeps compact text free of control characters.** -/
theorem call (h : w.Compact) (c : Call) : (w.call c).Compact := by
  cases c with
  | beginObject => exact h.separator.openWith (by decide)
  | beginObjectKey key => exact (h.key key).openWith (by decide)
  | endObject => exact h.closeWith (by decide)
  | beginArray key => exact (h.key key).openWith (by decide)
  | endArray => exact h.closeWith (by decide)
  | field key value => exact (h.key key).writeQuoted value
  | fieldBool key value => exact (h.key key).raw (by split <;> decide)
  | fieldI64 key value => exact (h.key key).raw (printable_i64Text value)
  | fieldNull key => exact (h.key key).raw (by decide)
  | value v => exact h.separator.writeQuoted v

theorem calls (cs : List Call) : ∀ {w : JsonWriter}, w.Compact → (w.calls cs).Compact := by
  induction cs with
  | nil => exact fun h ↦ h
  | cons c cs ih => exact fun h ↦ ih (h.call c)

end Compact

end JsonWriter

theorem printable_treeText (members : List (Bytes × Tree)) : Printable (treeText false members) :=
  (Compact.calls _ (w := new false) ⟨rfl, List.forall_mem_nil _⟩).printable

/-! ### Log events -/

/-- `enum class LogLevel`. -/
inductive LogLevel
  | debug
  | info
  | warn
  | error
  deriving DecidableEq, Repr

/-- `static_cast<int>(lvl)`. -/
def LogLevel.rank : LogLevel → ℕ
  | .debug => 0
  | .info => 1
  | .warn => 2
  | .error => 3

/-- `level_name`. -/
def levelName : LogLevel → Bytes
  | .debug => ofString "debug"
  | .info => ofString "info"
  | .warn => ofString "warn"
  | .error => ofString "error"

/-- `log_set_level_by_name`, with the level that is set. -/
def LogLevel.ofName (name : Bytes) : Option LogLevel :=
  if name = ofString "debug" then some .debug
  else if name = ofString "info" then some .info
  else if name = ofString "warn" then some .warn
  else if name = ofString "error" then some .error
  else none

/-- What `log_event` writes to `stderr` at the time `ts`, with the level set to `level`. -/
def logEvent (level : LogLevel) (ts : Bytes) (lvl : LogLevel) (msg : Bytes)
    (fields : List (Bytes × Bytes)) : Bytes :=
  if lvl.rank < level.rank then []
  else
    let w := (new false).beginObject
    let w := w.field (ofString "ts") ts
    let w := w.field (ofString "level") (levelName lvl)
    let w := w.field (ofString "msg") msg
    let w := fields.foldl (fun w f ↦ w.field f.1 f.2) w
    let w := w.endObject
    w.out ++ [0x0A]

/-- The members of a log event. -/
def logMembers (ts : Bytes) (lvl : LogLevel) (msg : Bytes) (fields : List (Bytes × Bytes)) :
    List (Bytes × Tree) :=
  (ofString "ts", .str ts) :: (ofString "level", .str (levelName lvl)) ::
    (ofString "msg", .str msg) :: fields.map fun f ↦ (f.1, .str f.2)

/-- **A log event is the compact text of its members** and the end of the line, if its level is
high enough. -/
theorem logEvent_eq (level : LogLevel) (ts : Bytes) (lvl : LogLevel) (msg : Bytes)
    (fields : List (Bytes × Bytes)) :
    logEvent level ts lvl msg fields =
      if lvl.rank < level.rank then []
      else treeText false (logMembers ts lvl msg fields) ++ [0x0A] := by
  have hfields : ∀ (fields : List (Bytes × Bytes)) (w : JsonWriter),
      w.calls (membersCalls (fields.map fun f ↦ (f.1, Tree.str f.2))) =
        fields.foldl (fun w f ↦ w.field f.1 f.2) w := by
    intro fields
    induction fields with
    | nil => exact fun w ↦ rfl
    | cons f fields ih => exact fun w ↦ ih (w.field f.1 f.2)
  rw [logEvent, treeText, logMembers]
  simp only [membersCalls, Tree.calls, List.cons_append, List.nil_append, calls_cons, calls_append,
    hfields, call]
  rfl

/-- **The writer emits exactly what it was told.** Whatever tree the calls spell out, in whatever
layout, the text reads back as that tree; compact text has no byte below `0x20`; and so a log event
is one line, which says what was logged. -/
theorem jsonWriter_round_trip :
    (∀ (pretty : Bool) (members : List (Bytes × Tree)),
      readTree (treeText pretty members) = some members) ∧
    (∀ members : List (Bytes × Tree), ∀ b ∈ treeText false members, 0x20 ≤ b) ∧
    ∀ (level : LogLevel) (ts : Bytes) (lvl : LogLevel) (msg : Bytes)
      (fields : List (Bytes × Bytes)),
      ∃ line, logEvent level ts lvl msg fields =
          (if lvl.rank < level.rank then [] else line ++ [0x0A]) ∧
        (∀ b ∈ line, 0x20 ≤ b) ∧ readTree line = some (logMembers ts lvl msg fields) :=
  ⟨readTree_treeText, printable_treeText, fun level ts lvl msg fields ↦
    ⟨_, logEvent_eq level ts lvl msg fields, printable_treeText _, readTree_treeText _ _⟩⟩

end NanoSensor
