import NanoSensor.Report.Drain
import NanoSensor.Report.Records
import NanoSensor.Transport.Response

/-!
# The far end

`tools/mock_cloud.py` stands in for the cloud: it takes in batches, counts what arrives, and tells
records apart by their ids. `Cloud.doPost` is its `do_POST`, from the bytes of the body to the
counters and the reply, with the two knobs that make it refuse.

The agent puts a batch into a body by hand, with commas between texts it does not look at.
`parse_requestBody` says that the reader gets exactly the batch back, in order, and
`doPost_requestBody` what becomes of a body that is UTF-8: one more batch, its records, and the ids
among those known. `Cloud.Balanced` is the invariant the harness reads off the counters: every
record is either the first of its id or a duplicate.

An id that is a number is compared by its numeral here and by its value there. The agent sends no
such id.
-/

namespace NanoSensor

open Bytes

/-! ### The server -/

/-- An id in the set `record_ids`. -/
inductive RecordKey
  | str (s : Bytes)
  | num (numeral : Bytes)
  | bool (b : Bool)
  deriving DecidableEq

/-- What Python can put into a set; `none` is a `TypeError`. -/
def RecordKey.ofJson : Json → Option RecordKey
  | .str s => some (.str s)
  | .num numeral => some (.num numeral)
  | .bool b => some (.bool b)
  | .null | .arr _ | .obj _ => none

/-- `STATE`, without the rate of random failures. -/
structure Cloud where
  batches : ℕ
  records : ℕ
  rejected : ℕ
  recordIds : Finset RecordKey
  duplicates : ℕ
  outageAfter : ℕ

/-- What `do_POST` answers. -/
inductive Reply
  | accepted (count : ℕ)
  | outage
  | transient
  | unparseable
  /-- The handler raised an exception, and the connection is closed without an answer. -/
  | died
  deriving DecidableEq

/-- The status of a reply, if there is one. -/
def Reply.status : Reply → Option ℕ
  | .accepted _ => some 200
  | .outage | .transient => some 503
  | .unparseable => some 400
  | .died => none

/-- A member of a dictionary: of two members with one key the last one counts. -/
def memberOf (members : List (Bytes × Json)) (key : Bytes) : Option Json :=
  (members.reverse.find? fun m ↦ m.1 = key).map Prod.snd

/-- `doc.get("records", [])`; what is no dictionary has no `get`. -/
def recordsOf : Json → Option Json
  | .obj members => some ((memberOf members (ofString "records")).getD (.arr []))
  | _ => none

/-- The characters of a string: each is a byte and those that continue it. -/
def characters (s : Bytes) : List Bytes :=
  s.splitBy fun _ b ↦ b &&& 0xC0 = 0x80

/-- What `len` counts and `for` goes through: the items of a list, the characters of a string, the
keys of a dictionary. `none` is a `TypeError`. -/
def itemsOf : Json → Option (List Json)
  | .arr items => some items
  | .str s => some ((characters s).map .str)
  | .obj members => some ((members.map Prod.fst).dedup.map .str)
  | .null | .bool _ | .num _ => none

namespace Cloud

/-- `STATE` when the server starts. -/
def fresh (outageAfter : ℕ) : Cloud :=
  ⟨0, 0, 0, ∅, 0, outageAfter⟩

/-- One id. -/
def note (c : Cloud) (key : RecordKey) : Cloud :=
  { c with
    duplicates := if key ∈ c.recordIds then c.duplicates + 1 else c.duplicates
    recordIds := insert key c.recordIds }

/-- The loop over the records, and whether it got to its end. -/
def noteAll (c : Cloud) : List Json → Cloud × Bool
  | [] => (c, true)
  | .obj members :: records =>
    match memberOf members (ofString "id") with
    | none | some .null => noteAll c records
    | some id =>
      match RecordKey.ofJson id with
      | none => (c, false)
      | some key => noteAll (c.note key) records
  | _ :: _ => (c, false)

/-- The server is simulating an outage. -/
def Down (c : Cloud) : Prop :=
  c.outageAfter ≠ 0 ∧ c.batches ≥ c.outageAfter

instance (c : Cloud) : Decidable c.Down :=
  inferInstanceAs (Decidable (_ ∧ _))

/-- `do_POST`; `flaky` is whether the random failure strikes. -/
def doPost (c : Cloud) (flaky : Bool) (body : Bytes) : Cloud × Reply :=
  if c.Down then ({ c with rejected := c.rejected + 1 }, .outage)
  else if flaky then ({ c with rejected := c.rejected + 1 }, .transient)
  else if ¬ Utf8.Valid body then (c, .unparseable)
  else
    match Json.parse body with
    | none => (c, .unparseable)
    | some doc =>
      match recordsOf doc with
      | none => (c, .died)
      | some records =>
        -- the batch counts, also when `len(records)` raises
        let c := { c with batches := c.batches + 1 }
        match itemsOf records with
        | none => (c, .died)
        | some items =>
          let c := { c with records := c.records + items.length }
          match c.noteAll items with
          | (c, true) => (c, .accepted items.length)
          | (c, false) => (c, .died)

/-- Every record is the first of its id or a duplicate. -/
def Balanced (c : Cloud) : Prop :=
  c.recordIds.card + c.duplicates = c.records

end Cloud

/-! ### What the agent sends -/

/-- What an agent sends, as the reader has it. -/
def batchTree (batch : List Entry) : Json :=
  .obj [(ofString "records", .arr (batch.map Entry.tree))]

/-- **What the far end reads is the batch**, in order. -/
theorem parse_requestBody (batch : List Entry) :
    Json.parse (Reporter.requestBody (batch.map Entry.record)) = some (batchTree batch) := by
  have hbody : Reporter.requestBody (batch.map Entry.record) =
      ofString "\x7b\"records\":" ++
        ((0x5B :: ((ofString ",").intercalate (batch.map Entry.record) ++ [0x5D])) ++ [0x7D]) := by
    rw [Reporter.requestBody,
      show ofString "\x7b\"records\":[" = ofString "\x7b\"records\":" ++ [0x5B] by decide,
      show ofString "]\x7d" = [0x5D, 0x7D] by decide]
    simp only [List.append_assoc, List.cons_append, List.nil_append]
  have hopen : Json.run ⟨[], .value false⟩ (ofString "\x7b\"records\":") =
      some ⟨[.member [] (ofString "records")], .value false⟩ := rfl
  have harray := Json.writes_arr fun x (_ : x ∈ batch) ↦ Entry.writes_record x
  obtain ⟨r, hrun, hsettles⟩ := harray [.member [] (ofString "records")] false _ rfl
  rw [Json.parse, hbody, Json.run_append, hopen, Option.bind_some, Json.run_append, hrun,
    Option.bind_some, hsettles.run_cons rfl]
  rfl

/-- A body is as well-formed as the records in it. -/
theorem valid_requestBody_iff (batch : List Bytes) :
    Utf8.Valid (Reporter.requestBody batch) ↔ ∀ record ∈ batch, Utf8.Valid record := by
  rw [Reporter.requestBody, Utf8.valid_append_ascii_iff (by decide),
    Utf8.valid_ascii_append_iff (by decide), Utf8.valid_intercalate_iff (by decide) (by decide)]

/-- The key of a record. -/
def Entry.key (x : Entry) : RecordKey :=
  .str x.id

namespace Cloud

/-- The server with a batch taken in. -/
def take (c : Cloud) (batch : List Entry) : Cloud :=
  batch.foldl (fun c x ↦ c.note x.key)
    { c with batches := c.batches + 1, records := c.records + batch.length }

theorem noteAll_map_tree (batch : List Entry) (c : Cloud) :
    c.noteAll (batch.map Entry.tree) = (batch.foldl (fun c x ↦ c.note x.key) c, true) := by
  induction batch generalizing c with
  | nil => rfl
  | cons x batch ih =>
    have hid : memberOf [(ofString "id", Json.str x.id), (ofString "type", .str x.type),
        (ofString "payload", x.payload)] (ofString "id") = some (.str x.id) := rfl
    rw [List.map_cons, Entry.tree, recordTree, noteAll, hid]
    exact ih (c.note x.key)

/-- **What becomes of a batch** that is not refused: it is taken in whole, or not at all because one
of its records is not UTF-8. -/
theorem doPost_requestBody {c : Cloud} (hup : ¬ c.Down) (batch : List Entry) :
    c.doPost false (Reporter.requestBody (batch.map Entry.record)) =
      if ∀ x ∈ batch, Utf8.Valid x.record then (c.take batch, .accepted batch.length)
      else (c, .unparseable) := by
  have hvalid := valid_requestBody_iff (batch.map Entry.record)
  rw [List.forall_mem_map] at hvalid
  rw [doPost, if_neg hup, if_neg Bool.false_ne_true]
  by_cases h : ∀ x ∈ batch, Utf8.Valid x.record
  · have hrecords : recordsOf (batchTree batch) = some (.arr (batch.map Entry.tree)) := rfl
    rw [if_neg (not_not.2 (hvalid.2 h)), if_pos h, parse_requestBody]
    simp only [hrecords, itemsOf, noteAll_map_tree, List.length_map]
    rfl
  · rw [if_pos (mt hvalid.1 h), if_neg h]

/-! ### The counters -/

theorem card_note (c : Cloud) (key : RecordKey) :
    (c.note key).recordIds.card + (c.note key).duplicates =
      c.recordIds.card + c.duplicates + 1 := by
  rw [note]
  dsimp only
  split
  · next h => rw [Finset.insert_eq_of_mem h, Nat.add_assoc]
  · next h => rw [Finset.card_insert_of_notMem h, Nat.add_right_comm]

/-- What a loop over ids adds. -/
theorem foldl_note (batch : List Entry) : ∀ c : Cloud,
    (batch.foldl (fun c x ↦ c.note x.key) c).recordIds =
        c.recordIds ∪ (batch.map Entry.key).toFinset ∧
      (batch.foldl (fun c x ↦ c.note x.key) c).recordIds.card +
          (batch.foldl (fun c x ↦ c.note x.key) c).duplicates =
        c.recordIds.card + c.duplicates + batch.length ∧
      (batch.foldl (fun c x ↦ c.note x.key) c).records = c.records ∧
      (batch.foldl (fun c x ↦ c.note x.key) c).batches = c.batches := by
  induction batch with
  | nil => exact fun c ↦ ⟨(Finset.union_empty _).symm, rfl, rfl, rfl⟩
  | cons x batch ih =>
    intro c
    obtain ⟨hids, hcard, hrecords, hbatches⟩ := ih (c.note x.key)
    rw [List.foldl_cons]
    refine ⟨?_, ?_, hrecords, hbatches⟩
    · rw [hids, List.map_cons, List.toFinset_cons, note, Finset.insert_union,
        Finset.union_insert]
    · rw [hcard, card_note, List.length_cons]
      omega

theorem recordIds_take (c : Cloud) (batch : List Entry) :
    (c.take batch).recordIds = c.recordIds ∪ (batch.map Entry.key).toFinset :=
  (foldl_note batch _).1

theorem Balanced.take {c : Cloud} (h : c.Balanced) (batch : List Entry) :
    (c.take batch).Balanced := by
  obtain ⟨-, hcard, hrecords, -⟩ := foldl_note batch
    { c with batches := c.batches + 1, records := c.records + batch.length }
  exact hcard.trans ((congrArg (· + batch.length) h).trans hrecords.symm)

/-- **A batch at the far end.** When the server is not refusing, the reply is 200 exactly when every
record is UTF-8; then the ids known are those known before and those of the batch, the counters have
grown by the batch, and they balance. Otherwise nothing has changed. -/
theorem batch_at_far_end {c : Cloud} (hup : ¬ c.Down) (hbalanced : c.Balanced)
    (batch : List Entry) (c' : Cloud) (reply : Reply)
    (h : c.doPost false (Reporter.requestBody (batch.map Entry.record)) = (c', reply)) :
    (reply.status = some 200 ↔ ∀ x ∈ batch, Utf8.Valid x.record) ∧
      (reply.status = some 200 → c'.recordIds = c.recordIds ∪ (batch.map Entry.key).toFinset ∧
        c'.batches = c.batches + 1 ∧ c'.records = c.records + batch.length ∧ c'.Balanced) ∧
      (reply.status ≠ some 200 → c' = c) := by
  rw [doPost_requestBody hup] at h
  split at h
  · next hvalid =>
    obtain ⟨rfl, rfl⟩ := Prod.mk.inj h
    obtain ⟨hids, -, hrecords, hbatches⟩ := foldl_note batch
      { c with batches := c.batches + 1, records := c.records + batch.length }
    exact ⟨iff_of_true rfl hvalid, fun _ ↦ ⟨hids, hbatches, hrecords, hbalanced.take batch⟩,
      fun hne ↦ absurd rfl hne⟩
  · next hvalid =>
    obtain ⟨rfl, rfl⟩ := Prod.mk.inj h
    exact ⟨iff_of_false (by decide) hvalid, fun heq ↦ absurd heq (by decide), fun _ ↦ rfl⟩

/-- The first batch: two records of one process. -/
theorem batch_at_far_end_first :
    ∃ c' reply, (⟨0, 0, 0, ∅, 0, 3⟩ : Cloud).doPost false (Reporter.requestBody
        ([Entry.synthetic ⟨1, 2⟩ 3 0, .synthetic ⟨1, 2⟩ 3 1].map Entry.record)) = (c', reply) ∧
      (reply.status = some 200 ↔
        ∀ x ∈ [Entry.synthetic ⟨1, 2⟩ 3 0, .synthetic ⟨1, 2⟩ 3 1], Utf8.Valid x.record) ∧
      (reply.status = some 200 →
        c'.recordIds = ∅ ∪
          ([Entry.synthetic ⟨1, 2⟩ 3 0, .synthetic ⟨1, 2⟩ 3 1].map Entry.key).toFinset ∧
        c'.batches = 0 + 1 ∧ c'.records = 0 + 2 ∧ c'.Balanced) ∧
      (reply.status ≠ some 200 → c' = ⟨0, 0, 0, ∅, 0, 3⟩) :=
  ⟨_, _, Prod.mk.eta.symm,
    batch_at_far_end (c := ⟨0, 0, 0, ∅, 0, 3⟩) (by decide) rfl _ _ _ Prod.mk.eta.symm⟩

end Cloud

end NanoSensor
