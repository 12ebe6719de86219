import NanoSensor.Foundation.Numerals
import NanoSensor.Foundation.Words
import NanoSensor.Inventory.Record
import NanoSensor.Json.Tree

/-!
# The records the reporter makes

`Reporter::collect` and `Reporter::append_inventory` of `src/main.cpp` wrap what they have to say
with `make_record`: an id, a type and a JSON text. The id carries a tag drawn once for the process,
so that the far end can tell a record that is sent twice from two records.

`Entry` is one such record with everything that goes into it, and `Origin` is what its id is made
of. The id gives the origin back (`Entry.id_eq_iff`) although neither the hostname nor the clock is
quoted: the tag has a fixed width and holds no hyphen. `nodup_id_collected` says that one call of
`collect` never mints an id twice. Wherever a value may stand, a JSON reader gets the record back
(`Entry.writes_record`), and with it the id.
-/

namespace NanoSensor

open Bytes

/-! ### Texts of numbers -/

theorem hyphen_not_mem_decimal (n : ℕ) : (0x2D : UInt8) ∉ decimal n := by
  intro hmem
  exact absurd (isDigit_of_mem_decimal hmem) (by decide)

theorem i64Text_injective {a b : Int64} (h : i64Text a = i64Text b) : a = b := by
  have hvalue := integerOf_i64Text a
  rw [h, integerOf_i64Text] at hvalue
  exact Int64.toInt_inj.1 (Option.some.inj hvalue).symm

/-- `"%08x"`. -/
def hex8 (v : UInt32) : Bytes :=
  [7, 6, 5, 4, 3, 2, 1, 0].map fun i ↦ kHex.getD (v.toNat / 16 ^ i % 16) 0

@[simp] theorem length_hex8 (v : UInt32) : (hex8 v).length = 8 := rfl

theorem hyphen_not_mem_hex8 (v : UInt32) : (0x2D : UInt8) ∉ hex8 v := by
  have hdigit : ∀ n < 16, kHex.getD n 0 ≠ 0x2D := by decide
  intro hmem
  obtain ⟨i, -, hi⟩ := List.mem_map.1 hmem
  exact hdigit _ (Nat.mod_lt _ (by decide)) hi

/-- The last `n` hexadecimal digits of a number. -/
theorem mod_pow_eq_of_digits_eq {v w : ℕ} {n : ℕ} (h : ∀ i < n, v / 16 ^ i % 16 = w / 16 ^ i % 16) :
    v % 16 ^ n = w % 16 ^ n := by
  induction n with
  | zero => rw [pow_zero, Nat.mod_one, Nat.mod_one]
  | succ n ih =>
    rw [Nat.mod_pow_succ, Nat.mod_pow_succ, h n (Nat.lt_succ_self n),
      ih fun i hi ↦ h i (Nat.lt_succ_of_lt hi)]

theorem hex8_injective {v w : UInt32} (h : hex8 v = hex8 w) : v = w := by
  have hdigit : ∀ a < 16, ∀ b < 16, kHex.getD a 0 = kHex.getD b 0 → a = b := by decide
  have hplace : ∀ i < 8, i ∈ [7, 6, 5, 4, 3, 2, 1, 0] := by decide
  have heq : ∀ i < 8, v.toNat / 16 ^ i % 16 = w.toNat / 16 ^ i % 16 := fun i hi ↦
    hdigit _ (Nat.mod_lt _ (by decide)) _ (Nat.mod_lt _ (by decide))
      (List.map_inj_left.1 h i (hplace i hi))
  have hmod := mod_pow_eq_of_digits_eq heq
  rw [show 16 ^ 8 = 2 ^ 32 by norm_num, Nat.mod_eq_of_lt v.toNat_lt,
    Nat.mod_eq_of_lt w.toNat_lt] at hmod
  exact UInt32.toNat_inj.1 hmod

/-! ### Records and their ids -/

/-- `run_tag`: two draws of the random device. -/
structure RunTag where
  first : UInt32
  second : UInt32
  deriving DecidableEq

namespace RunTag

/-- `snprintf(buf, sizeof(buf), "%08x%08x", rd(), rd())`. -/
def text (tag : RunTag) : Bytes :=
  hex8 tag.first ++ hex8 tag.second

@[simp] theorem length_text (tag : RunTag) : tag.text.length = 16 := rfl

theorem hyphen_not_mem_text (tag : RunTag) : (0x2D : UInt8) ∉ tag.text :=
  fun h ↦ (List.mem_append.1 h).elim (hyphen_not_mem_hex8 _) (hyphen_not_mem_hex8 _)

theorem text_injective {tag tag' : RunTag} (h : tag.text = tag'.text) : tag = tag' := by
  obtain ⟨hfirst, hsecond⟩ := List.append_inj h rfl
  have hboth := And.intro (hex8_injective hfirst) (hex8_injective hsecond)
  rcases tag with ⟨a, b⟩
  rcases tag' with ⟨a', b'⟩
  exact RunTag.mk.injEq a b a' b' ▸ hboth

end RunTag

/-- A record: the `i`-th of a synthetic batch, or an inventory. -/
inductive Entry
  | synthetic (tag : RunTag) (now : Int64) (i : ℕ)
  | inventory (tag : RunTag) (ms : Int64) (inv : Inventory)

/-- What the id of a record is made of. -/
inductive Origin
  | synthetic (tag : RunTag) (now : Int64) (i : ℕ)
  | inventory (hostname : Bytes) (tag : RunTag) (ms : Int64)
  deriving DecidableEq

/-- The text of an id. -/
def Origin.text : Origin → Bytes
  | .synthetic tag now i =>
    ofString "synthetic-" ++ tag.text ++ ofString "-" ++ i64Text now ++ ofString "-" ++ decimal i
  | .inventory hostname tag ms =>
    hostname ++ ofString "-" ++ tag.text ++ ofString "-" ++ i64Text ms ++ ofString "-inventory"

namespace Entry

def origin : Entry → Origin
  | synthetic tag now i => .synthetic tag now i
  | inventory tag ms inv => .inventory inv.host.hostname tag ms

/-- The first argument of `make_record`. -/
def id (x : Entry) : Bytes :=
  x.origin.text

/-- The second argument of `make_record`. -/
def type : Entry → Bytes
  | synthetic _ _ _ => ofString "synthetic"
  | inventory _ _ _ => ofString "inventory"

/-- The third argument of `make_record`. -/
def payloadJson : Entry → Bytes
  | synthetic _ now i =>
    let w := (JsonWriter.new false).beginObject
    let w := w.fieldI64 (ofString "n") (Int64.ofNat i)
    let w := w.fieldI64 (ofString "ts") now
    w.endObject.out
  | inventory _ _ inv => toJson inv false

/-- What is handed to `Spool::append`. -/
def record (x : Entry) : Bytes :=
  makeRecord x.id x.type x.payloadJson

/-- The value the payload stands for. -/
def payload : Entry → Json
  | synthetic _ now i =>
    .obj [(ofString "n", .num (i64Text (Int64.ofNat i))), (ofString "ts", .num (i64Text now))]
  | inventory _ _ inv => inventoryTree inv

/-- The value the record stands for. -/
def tree (x : Entry) : Json :=
  recordTree x.id x.type x.payload

end Entry

/-- The records of one `Reporter::collect`. -/
def collected (synthetic : ℤ) (tag : RunTag) (now : Int64) (inv : Inventory) (ms : Int64) :
    List Entry :=
  if 0 < synthetic then (List.range synthetic.toNat).map (.synthetic tag now)
  else [.inventory tag ms inv]

/-! ### The id gives its origin back -/

namespace Origin

/-- A clock value in front of the end of an id: its last hyphen is the sign or the separator. -/
theorem append_i64Text (front : Bytes) (ms : Int64) :
    front ++ 0x2D :: i64Text ms =
      (front ++ if ms.toInt < 0 then [0x2D] else []) ++ 0x2D :: decimal ms.toInt.natAbs := by
  rw [i64Text]
  split
  · rw [List.append_assoc]
    rfl
  · rw [List.append_nil]

theorem synthetic_text (tag : RunTag) (now : Int64) (i : ℕ) :
    (synthetic tag now i).text =
      (ofString "synthetic-" ++ (tag.text ++ (ofString "-" ++ i64Text now))) ++
        0x2D :: decimal i := by
  simp only [text, List.append_assoc]
  rfl

theorem inventory_text (hostname : Bytes) (tag : RunTag) (ms : Int64) :
    (inventory hostname tag ms).text =
      ((hostname ++ 0x2D :: tag.text) ++ 0x2D :: i64Text ms) ++ 0x2D :: ofString "inventory" := by
  simp only [text, List.append_assoc, List.cons_append]
  rfl

/-- The hostname, the tag and the clock in an id. -/
theorem inventory_inj {hostname hostname' : Bytes} {tag tag' : RunTag} {ms ms' : Int64}
    (h : (hostname ++ 0x2D :: tag.text) ++ 0x2D :: i64Text ms =
      (hostname' ++ 0x2D :: tag'.text) ++ 0x2D :: i64Text ms') :
    hostname = hostname' ∧ tag = tag' := by
  have htag : ∀ {front front' : Bytes}, front ++ 0x2D :: tag.text = front' ++ 0x2D :: tag'.text →
      front = front' ∧ tag = tag' := fun heq ↦
    (Delimited.append_cons_inj tag.hyphen_not_mem_text tag'.hyphen_not_mem_text heq).imp_right
      RunTag.text_injective
  rw [append_i64Text, append_i64Text] at h
  have hfront := (Delimited.append_cons_inj (hyphen_not_mem_decimal _)
    (hyphen_not_mem_decimal _) h).1
  -- a tag does not end in a hyphen, so either both clocks are negative or none is
  have hend : ∀ {front front' : Bytes} {t : RunTag},
      front ++ 0x2D :: t.text ≠ front' ++ [0x2D] := by
    intro front front' t heq
    have hnil := (Delimited.append_cons_inj t.hyphen_not_mem_text List.not_mem_nil heq).2
    exact absurd (congrArg List.length hnil) (by rw [RunTag.length_text]; decide)
  split at hfront <;> split at hfront
  · exact htag (List.append_cancel_right hfront)
  · rw [List.append_nil] at hfront
    exact absurd hfront.symm hend
  · rw [List.append_nil] at hfront
    exact absurd hfront hend
  · rw [List.append_nil, List.append_nil] at hfront
    exact htag hfront

/-- **The id gives its origin back.** -/
theorem text_injective {x y : Origin} (h : x.text = y.text) : x = y := by
  have hnot : (0x2D : UInt8) ∉ ofString "inventory" := by decide
  -- no numeral is the word at the end of the other kind of id
  have hword : ∀ n, decimal n ≠ ofString "inventory" := fun n heq ↦ by
    have hmem : (0x69 : UInt8) ∈ decimal n := heq ▸ by decide
    exact absurd (isDigit_of_mem_decimal hmem) (by decide)
  cases x with
  | synthetic tag now i =>
    cases y with
    | synthetic tag' now' j =>
      rw [synthetic_text, synthetic_text] at h
      obtain ⟨hfront, hi⟩ :=
        Delimited.append_cons_inj (hyphen_not_mem_decimal i) (hyphen_not_mem_decimal j) h
      obtain ⟨htag, hnow⟩ := List.append_inj (List.append_cancel_left hfront) rfl
      rw [RunTag.text_injective htag, i64Text_injective (List.append_cancel_left hnow),
        decimal_injective hi]
    | inventory hostname tag' ms =>
      rw [synthetic_text, inventory_text] at h
      exact absurd (Delimited.append_cons_inj (hyphen_not_mem_decimal i) hnot h).2 (hword i)
  | inventory hostname tag ms =>
    cases y with
    | synthetic tag' now' j =>
      rw [synthetic_text, inventory_text] at h
      exact absurd (Delimited.append_cons_inj hnot (hyphen_not_mem_decimal j) h).2.symm (hword j)
    | inventory hostname' tag' ms' =>
      rw [inventory_text, inventory_text] at h
      have hfront := (Delimited.append_cons_inj hnot hnot h).1
      obtain ⟨rfl, rfl⟩ := inventory_inj hfront
      rw [i64Text_injective (List.cons.inj (List.append_cancel_left hfront)).2]

end Origin

/-- **One call of `collect` never mints an id twice.** -/
theorem nodup_id_collected (synthetic : ℤ) (tag : RunTag) (now : Int64) (inv : Inventory)
    (ms : Int64) : ((collected synthetic tag now inv ms).map Entry.id).Nodup := by
  rw [collected]
  split
  · rw [List.map_map]
    refine (List.nodup_range).map fun i j h ↦ ?_
    exact (Origin.synthetic.inj (Origin.text_injective h)).2.2
  · exact List.nodup_singleton _

/-- **An id tells apart what it is made of.** Two records have the same id exactly when they are the
same number of the same synthetic batch, or inventories of one hostname, process and millisecond:
no hostname can be chosen so that the id of its inventory is another record's. -/
theorem Entry.id_eq_iff (x y : Entry) : x.id = y.id ↔ x.origin = y.origin :=
  ⟨Origin.text_injective, congrArg Origin.text⟩

/-! ### What a reader makes of a record -/

namespace Entry

theorem writes_payloadJson (x : Entry) : Json.Writes x.payloadJson x.payload := by
  cases x with
  | synthetic tag now i =>
    intro stack mayClose r' hsupply
    refine ⟨r', ?_, Or.inl rfl⟩
    have h₁ := (JsonWriter.reads_beginObject_new stack mayClose false).fieldI64 (ofString "n")
      (Int64.ofNat i)
    exact (h₁.fieldI64 (ofString "ts") now).endObject_root.trans hsupply
  | inventory tag ms inv => exact writes_toJson inv false

/-- **A record reads back as itself**, wherever a value may stand. -/
theorem writes_record (x : Entry) : Json.Writes x.record x.tree := by
  intro stack mayClose r' hsupply
  refine ⟨r', ?_, Or.inl rfl⟩
  have h₁ := (JsonWriter.reads_beginObject_new stack mayClose false).field (ofString "id") x.id
  have h₂ := h₁.field (ofString "type") x.type
  have h₃ := ((h₂.key (ofString "payload")).raw x.writes_payloadJson rfl).endObject_root
  rw [record, makeRecord_eq]
  exact h₃.trans hsupply

/-- Two records that are the same text have the same id. -/
theorem id_eq_of_record_eq {x y : Entry} (h : x.record = y.record) : x.id = y.id := by
  have hx := parse_makeRecord x.id x.type x.writes_payloadJson
  have hy := parse_makeRecord y.id y.type y.writes_payloadJson
  rw [show makeRecord x.id x.type x.payloadJson = makeRecord y.id y.type y.payloadJson from h, hy]
    at hx
  have hmembers := Json.obj.inj (Option.some.inj hx)
  exact (Json.str.inj (Prod.mk.inj (List.cons.inj hmembers).1).2).symm

end Entry

end NanoSensor
