import NanoSensor.Foundation.Machine
import NanoSensor.Report.Cloud
import NanoSensor.Spool.Kill

/-!
# Delivery

The agent and the cloud together: processes that come and go over one spool directory, a network
that may lose a request or its answer, and the server at the far end. `Delivery.step` is one thing
that happens: a process starts, appends a record, makes a turn of `drain`, ends, or is killed at any
moment of an append or of a commit; or the server is killed and started again.

`delivery_loses_nothing` is what the spool exists for. In every reachable state each record `append`
returned `true` for is in the queue a process has or would read, or its id is known to the cloud, or
it was evicted for want of space; and the cloud knows no id that was not appended. Any number of
processes may have been killed. The machine is restricted to `Careful` actions: no record is
appended behind a torn frame or when the ids of segments have run out, and a segment file that is
given up can be removed.

The server keeps what it knows in memory. `tools/chaos_test.py` kills it and starts another, and
then compares the number of records appended with the number of ids at the second one.
`chaos_verdict` bounds what the test can report as lost when nothing is: the ids that only the first
server knew.

Delivery can come to a stop all the same. A body is refused for good when one of its records is not
UTF-8, and the next batch begins with the same records: `bad_record_holds_up`.

The loop of `drain` is a run of this machine as long as its posts are exchanges with the server
(`run_drain`).
-/

namespace NanoSensor

open Bytes

namespace Delivery

/-! ### The system -/

/-- The agent: a process at work on its spool, or the directory the last one left. -/
inductive Agent
  | down (d : Disk)
  | up (s : Spool)

/-- The records a process has before it, or would have if it were started. -/
def Agent.queue (cfg : Config) : Agent → List Bytes
  | .down d => ((Spool.new d).openDir cfg).pending
  | .up s => s.pending

/-- What the network does to an exchange. A request that arrives may go unanswered. -/
inductive Network
  | lost (retryable : Bool)
  | unheard (retryable : Bool)
  | answered
  deriving DecidableEq

/-- What `post` makes of a reply. -/
def resultOf (reply : Reply) : PostResult :=
  match reply.status with
  | none => ⟨false, true⟩
  | some code => Transport.Result.posted (Transport.Result.judge { httpStatus := code })

/-- `Transport::post`, with the far end. -/
def exchange (net : Network) (flaky : Bool) (c : Cloud) (body : Bytes) : Cloud × PostResult :=
  match net with
  | .lost retryable => (c, ⟨false, retryable⟩)
  | .unheard retryable => ((c.doPost flaky body).1, ⟨false, retryable⟩)
  | .answered => ((c.doPost flaky body).1, resultOf (c.doPost flaky body).2)

/-- What happens around one turn of `drain`. -/
structure Turn where
  options : DrainOptions
  net : Network
  flaky : Bool
  save : CommitIo

/-- The turn as `drain` sees it. -/
def Turn.world (t : Turn) (c : Cloud) : World where
  stopRequested _ := false
  post _ body := (exchange t.net t.flaky c body).2
  save _ := t.save

/-- The server after the post of a turn. -/
def Turn.cloud (t : Turn) (c : Cloud) (s : Spool) : Cloud :=
  if Reporter.nextBatch t.options s = [] then c
  else (exchange t.net t.flaky c (Reporter.requestBody (Reporter.nextBatch t.options s))).1

/-- The whole system. -/
structure State where
  agent : Agent
  cloud : Cloud
  /-- The ids known to the servers that were killed. -/
  forgotten : Finset RecordKey
  /-- Every record handed to `append`. -/
  offered : List Entry
  /-- The records `append` returned `true` for. -/
  accepted : List Entry
  /-- The records `enforce_bounds` deleted while they were pending. -/
  evicted : List Bytes

/-- The ids that the server knows or one before it knew. -/
def State.known (st : State) : Finset RecordKey :=
  st.cloud.recordIds ∪ st.forgotten

/-- Something that happens. -/
inductive Action
  | start (cfg : Config)
  | append (io : AppendIo) (x : Entry)
  | turn (t : Turn)
  | exit
  /-- Killed after `k` effects of an append. -/
  | killAppend (io : AppendIo) (x : Entry) (k : ℕ)
  /-- Killed after `k` effects of the commit of a turn, or before it when there is none. -/
  | killTurn (t : Turn) (k : ℕ)
  /-- The server is killed and started again. Posts in between are lost. -/
  | restartServer (outageAfter : ℕ)

/-- The directory a process leaves that is killed in the commit of a turn. -/
def killedDisk (t : Turn) (c : Cloud) (s : Spool) (k : ℕ) : Disk :=
  let batch := Reporter.nextBatch t.options s
  if batch ≠ [] ∧ (exchange t.net t.flaky c (Reporter.requestBody batch)).2.ok then
    s.disk.run ((s.commit t.save batch.length).spool.journal.take k)
  else s.disk

/-- **One thing that happens.** -/
def step (st : State) (a : Action) : Option State :=
  match st.agent, a with
  | .down d, .start cfg => some { st with agent := .up ((Spool.new d).openDir cfg) }
  | .up s, .append io x =>
    let out := s.append io x.record
    some { st with
      agent := .up out.spool
      offered := st.offered ++ [x]
      accepted := if out.error = none then st.accepted ++ [x] else st.accepted
      evicted := st.evicted ++ s.evictedBy x.record out.spool.journal }
  | .up s, .turn t =>
    some { st with
      agent := .up (Reporter.turn t.options (t.world st.cloud) ⟨s, 0, false, 0, [], true⟩).spool
      cloud := t.cloud st.cloud s }
  | .up s, .exit => some { st with agent := .down s.disk }
  | .up s, .killAppend io x k =>
    let steps := (s.append io x.record).spool.journal.take k
    some { st with
      agent := .down (s.disk.run steps)
      offered := st.offered ++ [x]
      evicted := st.evicted ++ s.evictedBy x.record steps }
  | .up s, .killTurn t k =>
    some { st with
      agent := .down (killedDisk t st.cloud s k)
      cloud := t.cloud st.cloud s }
  | _, .restartServer outageAfter =>
    some { st with
      cloud := .fresh outageAfter
      forgotten := st.forgotten ∪ st.cloud.recordIds }
  | _, _ => none

/-- The action does not append behind a torn frame, nor when no id is left or the segment cannot be
opened, and removes the segment files it is to remove. -/
def Careful (st : State) (a : Action) : Prop :=
  match st.agent, a with
  | .up s, .append io _ => io.opens = true ∧ io.kept = [] ∧ s.active ≠ 0 ∧ s.EndsWhole
  | .up s, .killAppend io _ _ => io.kept = [] ∧ s.active ≠ 0 ∧ s.EndsWhole
  | .up _, .turn t | .up _, .killTurn t _ => t.save.kept = []
  | _, _ => True

instance (st : State) (a : Action) : Decidable (Careful st a) := by
  unfold Careful
  split <;> infer_instance

/-- The machine restricted to careful actions. -/
def carefulStep (st : State) (a : Action) : Option State :=
  if Careful st a then step st a else none

/-- An empty directory, and a server that has received nothing. -/
def initial (outageAfter : ℕ) : State where
  agent := .down Disk.empty
  cloud := .fresh outageAfter
  forgotten := ∅
  offered := []
  accepted := []
  evicted := []

/-! ### Exchanges -/

/-- What can become of a batch at the far end: it is refused, or taken in whole. -/
theorem doPost_cases (c : Cloud) (flaky : Bool) (batch : List Entry) :
    (∃ n reply, c.doPost flaky (Reporter.requestBody (batch.map Entry.record)) =
        ({ c with rejected := n }, reply) ∧ (resultOf reply).ok = false) ∨
      (∀ x ∈ batch, Utf8.Valid x.record) ∧
        c.doPost flaky (Reporter.requestBody (batch.map Entry.record)) =
          (c.take batch, .accepted batch.length) := by
  by_cases hdown : c.Down
  · exact Or.inl ⟨_, .outage, by rw [Cloud.doPost, if_pos hdown], rfl⟩
  · cases flaky with
    | true => exact Or.inl ⟨_, .transient, by rw [Cloud.doPost, if_neg hdown, if_pos rfl], rfl⟩
    | false =>
      rw [Cloud.doPost_requestBody hdown]
      by_cases hvalid : ∀ x ∈ batch, Utf8.Valid x.record
      · exact Or.inr ⟨hvalid, if_pos hvalid⟩
      · exact Or.inl ⟨c.rejected, .unparseable, if_neg hvalid, rfl⟩

/-- **An exchange** leaves the server as it was, but for a counter, or the batch is at the far end.
A batch that was acknowledged is at the far end. -/
theorem exchange_cases (net : Network) (flaky : Bool) (c : Cloud) (batch : List Entry) :
    (∃ n, (exchange net flaky c (Reporter.requestBody (batch.map Entry.record))).1 =
        { c with rejected := n } ∧
      (exchange net flaky c (Reporter.requestBody (batch.map Entry.record))).2.ok = false) ∨
    (∀ x ∈ batch, Utf8.Valid x.record) ∧
      (exchange net flaky c (Reporter.requestBody (batch.map Entry.record))).1 = c.take batch := by
  rcases doPost_cases c flaky batch with ⟨n, reply, heq, hok⟩ | ⟨hvalid, heq⟩
  · cases net with
    | lost retryable => exact Or.inl ⟨c.rejected, rfl, rfl⟩
    | unheard retryable => exact Or.inl ⟨n, congrArg Prod.fst heq, rfl⟩
    | answered => exact Or.inl ⟨n, congrArg Prod.fst heq, by rw [exchange, heq]; exact hok⟩
  · cases net with
    | lost retryable => exact Or.inl ⟨c.rejected, rfl, rfl⟩
    | unheard retryable => exact Or.inr ⟨hvalid, congrArg Prod.fst heq⟩
    | answered => exact Or.inr ⟨hvalid, congrArg Prod.fst heq⟩

/-- The spool after a turn: committed when the batch was acknowledged. -/
theorem spool_turn (t : Turn) (c : Cloud) (s : Spool) :
    (Reporter.turn t.options (t.world c) ⟨s, 0, false, 0, [], true⟩).spool =
      let batch := Reporter.nextBatch t.options s
      if batch ≠ [] ∧ (exchange t.net t.flaky c (Reporter.requestBody batch)).2.ok then
        (s.commit t.save batch.length).spool
      else s := by
  rcases eq_or_ne (Reporter.nextBatch t.options s) [] with hnil | hne
  · rw [Reporter.turn_of_stop (Or.inr hnil)]
    simp only [hnil, ne_eq, not_true_eq_false, false_and, if_false]
  · have hposts : Reporter.Posts t.options (t.world c) ⟨s, 0, false, 0, [], true⟩
        (exchange t.net t.flaky c (Reporter.requestBody (Reporter.nextBatch t.options s))).2 :=
      ⟨rfl, hne, rfl⟩
    rcases hok : (exchange t.net t.flaky c
      (Reporter.requestBody (Reporter.nextBatch t.options s))).2.ok with - | -
    · rw [(Reporter.turn_of_failed hposts hok).1]
      simp only [hok, Bool.false_eq_true, and_false, if_false]
    · rw [Reporter.turn_of_acknowledged hposts hok]
      simp only [hok, ne_eq, hne, not_false_eq_true, and_self, if_true]
      split <;> rfl

/-! ### A drain is a run of turns -/

/-- The posts of the first `n` turns of a drain were exchanges with the server, which `c` has become
by now. -/
inductive Served (o : DrainOptions) (w : World) (s : Spool) (c₀ : Cloud) : ℕ → Cloud → Prop
  | start : Served o w s c₀ 0 c₀
  | idle {n : ℕ} {c : Cloud} (h : Served o w s c₀ n c)
    (spool : (Reporter.drain o w s (n + 1)).spool = (Reporter.drain o w s n).spool) :
    Served o w s c₀ (n + 1) c
  | post {n : ℕ} {c : Cloud} (h : Served o w s c₀ n c) (net : Network) (flaky : Bool)
    (running : (Reporter.drain o w s n).running = true)
    (posts : Reporter.Posts o w (Reporter.drain o w s n) (exchange net flaky c
      (Reporter.requestBody (Reporter.nextBatch o (Reporter.drain o w s n).spool))).2) :
    Served o w s c₀ (n + 1) (exchange net flaky c
      (Reporter.requestBody (Reporter.nextBatch o (Reporter.drain o w s n).spool))).1

/-- A turn leaves the spool as the machine's does, whatever the other locals of the loop are. -/
theorem spool_turn_eq {o : DrainOptions} {w : World} {d : Drain} {c : Cloud} {net : Network}
    {flaky : Bool} (h : Reporter.Posts o w d (exchange net flaky c
      (Reporter.requestBody (Reporter.nextBatch o d.spool))).2) :
    (Reporter.turn o w d).spool =
      (Reporter.turn o (Turn.world ⟨o, net, flaky, w.save d.posts.length⟩ c)
        ⟨d.spool, 0, false, 0, [], true⟩).spool := by
  rw [spool_turn ⟨o, net, flaky, w.save d.posts.length⟩ c d.spool]
  rcases hok : (exchange net flaky c
    (Reporter.requestBody (Reporter.nextBatch o d.spool))).2.ok with - | -
  · rw [(Reporter.turn_of_failed h hok).1]
    simp only [hok, Bool.false_eq_true, and_false, if_false]
  · rw [Reporter.turn_of_acknowledged h hok]
    simp only [hok, ne_eq, h.batch_ne_nil, not_false_eq_true, and_self, if_true]
    split <;> rfl

/-- **A drain is a run of turns.** -/
theorem run_drain {o : DrainOptions} {w : World} {s : Spool} {n : ℕ} {c : Cloud} {st : State}
    (hagent : st.agent = .up s) (hkept : ∀ i, (w.save i).kept = [])
    (h : Served o w s st.cloud n c) :
    ∃ turns : List Turn, Machine.run carefulStep st (turns.map .turn) =
      some { st with agent := .up (Reporter.drain o w s n).spool, cloud := c } := by
  induction h with
  | start =>
    refine ⟨[], ?_⟩
    rw [Reporter.drain, ← hagent]
    rfl
  | idle h hspool ih => rwa [hspool]
  | @post n c h net flaky hrunning hposts ih =>
    obtain ⟨turns, hturns⟩ := ih
    refine ⟨turns ++ [⟨o, net, flaky, w.save (Reporter.drain o w s n).posts.length⟩], ?_⟩
    have hcareful : Careful { st with agent := .up (Reporter.drain o w s n).spool, cloud := c }
        (.turn ⟨o, net, flaky, w.save (Reporter.drain o w s n).posts.length⟩) :=
      hkept (Reporter.drain o w s n).posts.length
    rw [List.map_append, Machine.run_append, hturns, Option.bind_some, Reporter.drain,
      if_pos hrunning, spool_turn_eq hposts, List.map_singleton, Machine.run_cons, carefulStep,
      if_pos hcareful]
    refine congrArg some ?_
    rw [Turn.cloud, if_neg hposts.batch_ne_nil]

/-! ### The invariant -/

/-- What is known about the agent: the object works, or the directory recovers. -/
def Holds (segs : List Segment) (c : ℕ) : Agent → Prop
  | .down d => Recovers d segs c
  | .up s => Works s segs c

/-- Every record accepted is in the queue, at the far end or evicted, and nothing is stored that was
not offered. -/
structure Covers (st : State) (segs : List Segment) (c : ℕ) : Prop where
  accepted : ∀ x ∈ st.accepted,
    x.record ∈ live segs c ∨ x.key ∈ st.known ∨ x.record ∈ st.evicted
  stored : ∀ r ∈ segs.flatMap Segment.records, ∃ x ∈ st.offered, x.record = r

/-- What every careful action keeps. -/
structure Inv (st : State) : Prop where
  spool : ∃ segs c, Holds segs c st.agent ∧ Covers st segs c
  known : ∀ key ∈ st.known, ∃ x ∈ st.offered, x.key = key
  balanced : st.cloud.Balanced

/-- A stored list of records is a list of entries. -/
theorem exists_batch {offered : List Entry} {records : List Bytes}
    (h : ∀ r ∈ records, ∃ x ∈ offered, x.record = r) :
    ∃ batch : List Entry, (∀ x ∈ batch, x ∈ offered) ∧ batch.map Entry.record = records := by
  induction records with
  | nil => exact ⟨[], List.forall_mem_nil _, rfl⟩
  | cons r records ih =>
    obtain ⟨x, hx, rfl⟩ := h r List.mem_cons_self
    obtain ⟨batch, hbatch, rfl⟩ := ih fun r' hr' ↦ h r' (List.mem_cons_of_mem _ hr')
    exact ⟨x :: batch, List.forall_mem_cons.2 ⟨hx, hbatch⟩, rfl⟩

theorem live_subset_records {segs : List Segment} {c : ℕ} {r : Bytes} (h : r ∈ live segs c) :
    r ∈ segs.flatMap Segment.records := by
  rw [← live_zero]
  exact (live_suffix_live (Nat.zero_le c) segs).subset h

/-- Why records may leave the queue: they were evicted, or they were well-formed and are known at
the far end. -/
def Released (st : State) (records : List Bytes) : Prop :=
  (∀ r ∈ records, r ∈ st.evicted) ∨
    ∀ r ∈ records, Utf8.Valid r ∧ ∀ x : Entry, x.record = r → x.key ∈ st.known

theorem released_nil (st : State) : Released st [] :=
  Or.inl (List.forall_mem_nil _)

/-- What an action does to the queue and to the books. -/
structure Advances (st st' : State) (segs : List Segment) (c : ℕ) (segs' : List Segment)
    (c' : ℕ) : Prop where
  queue : ∃ new n, Accounted segs c new n segs' c' ∧
    Released st' ((live segs c ++ new).take n) ∧
    (∀ r ∈ new, ∃ x ∈ st'.offered, x.record = r) ∧
    ∀ x ∈ st'.accepted, x ∈ st.accepted ∨ x.record ∈ new
  ids : st.known ⊆ st'.known
  evicted : st.evicted ⊆ st'.evicted
  offered : st.offered ⊆ st'.offered

/-- **How the books are carried forward.** -/
theorem Covers.next {st st' : State} {segs segs' : List Segment} {c c' : ℕ}
    (h : Covers st segs c) (hadv : Advances st st' segs c segs' c') : Covers st' segs' c' := by
  obtain ⟨new, n, haccounted, hreleased, hnew, haccepted⟩ := hadv.queue
  have hqueue : ∀ x : Entry, x.record ∈ live segs c ++ new →
      x.record ∈ live segs' c' ∨ x.key ∈ st'.known ∨ x.record ∈ st'.evicted := by
    intro x hx
    rcases haccounted.kept hx with hgone | hlive
    · rcases hreleased with hev | hknown
      · exact Or.inr (Or.inr (hev _ hgone))
      · exact Or.inr (Or.inl ((hknown _ hgone).2 x rfl))
    · exact Or.inl hlive
  refine ⟨fun x hx ↦ ?_, fun r hr ↦ ?_⟩
  · rcases haccepted x hx with hold | hrecord
    · rcases h.accepted x hold with hlive | hkey | hev
      · exact hqueue x (List.mem_append_left _ hlive)
      · exact Or.inr (Or.inl (hadv.ids hkey))
      · exact Or.inr (Or.inr (hadv.evicted hev))
    · exact hqueue x (List.mem_append_right _ hrecord)
  · rcases List.mem_append.1 (haccounted.stored.subset hr) with hold | hrecord
    · obtain ⟨x, hx, hrec⟩ := h.stored r hold
      exact ⟨x, hadv.offered hx, hrec⟩
    · exact hnew r hrecord

/-- The next batch, on a spool that works: the front of the queue. -/
theorem nextBatch_of_works {s : Spool} {segs : List Segment} {c : ℕ} (h : Works s segs c)
    (o : DrainOptions) : Reporter.nextBatch o s = (live segs c).take o.batchSize := by
  obtain ⟨lows, hrep⟩ := h.represents
  rw [Reporter.nextBatch, hrep.peek_eq, Spool.map_payload_numbered, takeUpTo_coe]

/-- What a post can do at the far end: no id is forgotten, none comes in that was not offered, and
the counters still balance. -/
structure Gains (offered : List Entry) (c c' : Cloud) : Prop where
  ids : c.recordIds ⊆ c'.recordIds
  known : ∀ key ∈ c'.recordIds, key ∈ c.recordIds ∨ ∃ x ∈ offered, x.key = key
  balanced : c.Balanced → c'.Balanced

theorem Gains.rejected (offered : List Entry) (c : Cloud) (n : ℕ) :
    Gains offered c { c with rejected := n } :=
  ⟨Finset.Subset.refl _, fun _ hkey ↦ Or.inl hkey, fun h ↦ h⟩

theorem Gains.take {offered batch : List Entry} (h : ∀ x ∈ batch, x ∈ offered) (c : Cloud) :
    Gains offered c (c.take batch) where
  ids := by
    rw [Cloud.recordIds_take]
    exact Finset.subset_union_left
  known := by
    intro key hkey
    rw [Cloud.recordIds_take, Finset.mem_union, List.mem_toFinset] at hkey
    refine hkey.imp_right fun hmem ↦ ?_
    obtain ⟨x, hx, rfl⟩ := List.mem_map.1 hmem
    exact ⟨x, h x hx, rfl⟩
  balanced := fun hbalanced ↦ hbalanced.take batch

/-- What an action does to the ids: none comes in that was not offered, and the counters of the
server that is running still balance. -/
structure Learns (st st' : State) : Prop where
  known : ∀ key ∈ st'.known, key ∈ st.known ∨ ∃ x ∈ st'.offered, x.key = key
  balanced : st.cloud.Balanced → st'.cloud.Balanced

theorem Gains.learns {st st' : State} (h : Gains st'.offered st.cloud st'.cloud)
    (hforgotten : st'.forgotten = st.forgotten) : Learns st st' := by
  refine ⟨fun key hkey ↦ ?_, h.balanced⟩
  rw [State.known, hforgotten, Finset.mem_union] at hkey
  rw [State.known, Finset.mem_union]
  rcases hkey with hcloud | hold
  · exact (h.known key hcloud).imp_left Or.inl
  · exact Or.inl (Or.inr hold)

theorem learns_of_cloud {st st' : State} (hcloud : st'.cloud = st.cloud)
    (hforgotten : st'.forgotten = st.forgotten) : Learns st st' :=
  Gains.learns (hcloud ▸ .rejected st'.offered st'.cloud st'.cloud.rejected) hforgotten

/-- **The post of a turn.** A batch that is acknowledged is well-formed, and its ids are known. -/
theorem Covers.posts {st : State} {s : Spool} {segs : List Segment} {c : ℕ}
    (h : Covers st segs c) (hworks : Works s segs c) (t : Turn) :
    Gains st.offered st.cloud (t.cloud st.cloud s) ∧
      ((exchange t.net t.flaky st.cloud
          (Reporter.requestBody (Reporter.nextBatch t.options s))).2.ok = true →
        ∀ r ∈ Reporter.nextBatch t.options s, Utf8.Valid r ∧
          ∀ x : Entry, x.record = r → x.key ∈ (t.cloud st.cloud s).recordIds) := by
  rcases eq_or_ne (Reporter.nextBatch t.options s) [] with hnil | hne
  · rw [Turn.cloud, if_pos hnil, hnil]
    exact ⟨Gains.rejected st.offered st.cloud _, fun _ ↦ List.forall_mem_nil _⟩
  · -- what is in the queue was offered, so the batch is a list of entries
    obtain ⟨batch, hoffered, hbatch⟩ : ∃ batch : List Entry, (∀ x ∈ batch, x ∈ st.offered) ∧
        batch.map Entry.record = Reporter.nextBatch t.options s := by
      refine exists_batch fun r hr ↦ h.stored r (live_subset_records (c := c) ?_)
      rw [nextBatch_of_works hworks] at hr
      exact List.mem_of_mem_take hr
    rw [Turn.cloud, if_neg hne, ← hbatch]
    rcases exchange_cases t.net t.flaky st.cloud batch with ⟨n, heq, hok⟩ | ⟨hvalid, heq⟩
    · rw [heq, hok]
      exact ⟨Gains.rejected _ _ n, fun hfalse ↦ absurd hfalse Bool.false_ne_true⟩
    · rw [heq]
      refine ⟨Gains.take hoffered st.cloud, fun _ ↦ List.forall_mem_map.2 fun y hy ↦ ?_⟩
      refine ⟨hvalid y hy, fun x hrecord ↦ ?_⟩
      rw [Cloud.recordIds_take, Finset.mem_union, List.mem_toFinset, Entry.key,
        Entry.id_eq_of_record_eq hrecord]
      exact Or.inr (List.mem_map_of_mem hy)

/-! ### What each action does -/

section Actions

variable {st : State} {s : Spool} {segs segs' : List Segment} {c c' : ℕ}

/-- What a commit of the next batch takes off the queue is the batch. -/
theorem take_length_nextBatch (h : Works s segs c) (o : DrainOptions) :
    (live segs c).take (Reporter.nextBatch o s).length = Reporter.nextBatch o s := by
  rw [nextBatch_of_works h, List.length_take, List.take_eq_take_iff]
  omega

/-- A turn, whole or killed, when the queue lost nothing, or the batch that was acknowledged. -/
theorem Covers.advances_turn (h : Covers st segs c) (hworks : Works s segs c) (t : Turn)
    (agent : Agent) {n : ℕ} (haccounted : Accounted segs c [] n segs' c')
    (hn : n = 0 ∨ n = (Reporter.nextBatch t.options s).length ∧ (exchange t.net t.flaky st.cloud
      (Reporter.requestBody (Reporter.nextBatch t.options s))).2.ok = true) :
    Advances st { st with agent := agent, cloud := t.cloud st.cloud s } segs c segs' c' := by
  obtain ⟨hgains, hknown⟩ := h.posts hworks t
  refine ⟨⟨[], n, haccounted, ?_, List.forall_mem_nil _, fun x hx ↦ Or.inl hx⟩,
    Finset.union_subset_union_left hgains.ids, List.Subset.refl _, List.Subset.refl _⟩
  rw [List.append_nil]
  rcases hn with rfl | ⟨rfl, hok⟩
  · exact released_nil _
  · rw [take_length_nextBatch hworks]
    exact Or.inr fun r hr ↦ (hknown hok r hr).imp_right fun h x hx ↦
      Finset.mem_union_left _ (h x hx)

/-- **A turn.** -/
theorem Covers.turn (h : Covers st segs c) (hworks : Works s segs c) {t : Turn}
    (hkept : t.save.kept = []) :
    ∃ segs' c',
      Works (Reporter.turn t.options (t.world st.cloud) ⟨s, 0, false, 0, [], true⟩).spool segs' c' ∧
      ∀ agent, Advances st { st with agent := agent, cloud := t.cloud st.cloud s }
        segs c segs' c' := by
  rw [spool_turn]
  dsimp only
  split
  · next hok =>
    obtain ⟨segs', c', hworks', haccounted⟩ :=
      hworks.commit hkept (Reporter.nextBatch t.options s).length
    exact ⟨segs', c', hworks', fun agent ↦
      h.advances_turn hworks t agent haccounted (Or.inr ⟨rfl, hok.2⟩)⟩
  · exact ⟨segs, c, hworks, fun agent ↦
      h.advances_turn hworks t agent (.refl segs c) (Or.inl rfl)⟩

/-- **A turn that is killed.** -/
theorem Covers.killTurn (h : Covers st segs c) (hworks : Works s segs c) {t : Turn}
    (hkept : t.save.kept = []) (k : ℕ) :
    ∃ segs' c', Recovers (killedDisk t st.cloud s k) segs' c' ∧
      ∀ agent, Advances st { st with agent := agent, cloud := t.cloud st.cloud s }
        segs c segs' c' := by
  unfold killedDisk
  dsimp only
  split
  · next hok =>
    obtain ⟨segs', c', hrecovers, haccounted⟩ :=
      hworks.kill_commit hkept (Reporter.nextBatch t.options s).length k
    exact ⟨segs', c', hrecovers, fun agent ↦
      h.advances_turn hworks t agent haccounted (Or.inr ⟨rfl, hok.2⟩)⟩
  · exact ⟨segs, c, hworks.recovers, fun agent ↦
      h.advances_turn hworks t agent (.refl segs c) (Or.inl rfl)⟩

/-- An append, whole or killed. -/
theorem advances_append {x : Entry} {steps : List DiskStep} {new : List Bytes}
    (happended : Works.Appended s segs c x.record steps new segs' c') (agent : Agent)
    {accepted : List Entry} (haccepted : ∀ y ∈ accepted, y ∈ st.accepted ∨ y.record ∈ new) :
    Advances st
      { st with
        agent := agent
        offered := st.offered ++ [x]
        accepted := accepted
        evicted := st.evicted ++ s.evictedBy x.record steps } segs c segs' c' := by
  obtain ⟨hnew, n, haccounted, hevicted⟩ := happended
  refine ⟨⟨new, n, haccounted, Or.inl fun r hr ↦ ?_, fun r hr ↦ ⟨x, ?_, ?_⟩, haccepted⟩,
    Finset.Subset.refl _, List.subset_append_left _ _, List.subset_append_left _ _⟩
  · rw [hevicted]
    exact List.mem_append_right _ hr
  · exact List.mem_append_right _ (List.mem_singleton_self x)
  · rcases hnew with rfl | rfl
    · cases hr
    · exact (List.mem_singleton.1 hr).symm

end Actions

/-- An action that leaves the queue and the books alone. -/
theorem advances_of_le (st : State) (agent : Agent) (segs : List Segment) {c c' : ℕ}
    (h : c' ≤ c) : Advances st { st with agent := agent } segs c segs c' :=
  ⟨⟨[], 0, .of_le segs h, released_nil _, List.forall_mem_nil _, fun _ hx ↦ Or.inl hx⟩,
    Finset.Subset.refl _, List.Subset.refl _, List.Subset.refl _⟩

/-- A server that starts again has forgotten what the one before it knew. -/
theorem advances_restartServer {st st' : State} {outageAfter : ℕ}
    (hstep : step st (.restartServer outageAfter) = some st') (segs : List Segment) (c : ℕ) :
    st'.agent = st.agent ∧ Advances st st' segs c segs c ∧ Learns st st' := by
  obtain rfl : { st with
      cloud := .fresh outageAfter
      forgotten := st.forgotten ∪ st.cloud.recordIds } = st' := by
    rcases hagent : st.agent with d | s
    all_goals
      rw [step, hagent] at hstep
      exact Option.some.inj hstep
  have hknown : State.known { st with
      cloud := .fresh outageAfter
      forgotten := st.forgotten ∪ st.cloud.recordIds } = st.known := by
    rw [State.known, Cloud.fresh, Finset.empty_union, Finset.union_comm, State.known]
  refine ⟨rfl, ⟨⟨[], 0, .refl segs c, released_nil _, List.forall_mem_nil _,
    fun _ hx ↦ Or.inl hx⟩, hknown.ge, List.Subset.refl _, List.Subset.refl _⟩, ?_, fun _ ↦ rfl⟩
  exact fun key hkey ↦ Or.inl (hknown ▸ hkey)

/-- **What a careful action does to the queue.** -/
theorem advances_of_step {st st' : State} {a : Action} (hstep : carefulStep st a = some st')
    {segs : List Segment} {c : ℕ} (hholds : Holds segs c st.agent) (hcovers : Covers st segs c) :
    ∃ segs' c', Holds segs' c' st'.agent ∧ Advances st st' segs c segs' c' ∧ Learns st st' := by
  obtain ⟨hcareful, hstep⟩ := Option.ite_none_right_eq_some.1 hstep
  obtain ⟨agent, cloud, forgotten, offered, accepted, evicted⟩ := st
  rcases agent with d | s
  · -- only a process that is running does anything
    cases a with
    | start cfg =>
      obtain rfl := Option.some.inj hstep
      obtain ⟨c', hle, hworks⟩ := Recovers.works hholds cfg
      exact ⟨segs, c', hworks, advances_of_le _ _ segs hle, learns_of_cloud rfl rfl⟩
    | restartServer outageAfter =>
      obtain ⟨hagent, hadv, hlearns⟩ := advances_restartServer hstep segs c
      exact ⟨segs, c, hagent ▸ hholds, hadv, hlearns⟩
    | append io x | turn t | exit | killAppend io x k | killTurn t k => cases hstep
  · have hworks : Works s segs c := hholds
    cases a with
    | start cfg => cases hstep
    | append io x =>
      obtain rfl := Option.some.inj hstep
      obtain ⟨segs', c', new, hworks', happended, hok⟩ :=
        hworks.append hcareful.2.2.1 hcareful.2.2.2 hcareful.1 hcareful.2.1 x.record
      refine ⟨segs', c', hworks', advances_append happended _ fun y hy ↦ ?_,
        learns_of_cloud rfl rfl⟩
      split at hy
      · next herror =>
        refine (List.mem_append.1 hy).imp_right fun hx ↦ ?_
        rw [List.mem_singleton.1 hx, hok herror]
        exact List.mem_singleton_self _
      · exact Or.inl hy
    | turn t =>
      obtain rfl := Option.some.inj hstep
      obtain ⟨segs', c', hworks', hadv⟩ := hcovers.turn hworks hcareful
      exact ⟨segs', c', hworks', hadv _, (hcovers.posts hworks t).1.learns rfl⟩
    | exit =>
      obtain rfl := Option.some.inj hstep
      exact ⟨segs, c, hworks.recovers, advances_of_le _ _ segs (le_refl c), learns_of_cloud rfl rfl⟩
    | killAppend io x k =>
      obtain rfl := Option.some.inj hstep
      obtain ⟨segs', c', new, hrecovers, happended⟩ :=
        hworks.kill_append hcareful.2.1 hcareful.2.2 hcareful.1 x.record k
      exact ⟨segs', c', hrecovers, advances_append happended _ fun y hy ↦ Or.inl hy,
        learns_of_cloud rfl rfl⟩
    | killTurn t k =>
      obtain rfl := Option.some.inj hstep
      obtain ⟨segs', c', hrecovers, hadv⟩ := hcovers.killTurn hworks hcareful k
      exact ⟨segs', c', hrecovers, hadv _, (hcovers.posts hworks t).1.learns rfl⟩
    | restartServer outageAfter =>
      obtain ⟨hagent, hadv, hlearns⟩ := advances_restartServer hstep segs c
      exact ⟨segs, c, hagent ▸ hholds, hadv, hlearns⟩

/-! ### Whole runs -/

/-- **One careful action keeps the invariant.** -/
theorem Inv.step {st st' : State} (a : Action) (h : Inv st) (hstep : carefulStep st a = some st') :
    Inv st' := by
  obtain ⟨⟨segs, c, hholds, hcovers⟩, hknown, hbalanced⟩ := h
  obtain ⟨segs', c', hholds', hadv, hlearns⟩ := advances_of_step hstep hholds hcovers
  refine ⟨⟨segs', c', hholds', hcovers.next hadv⟩, fun key hkey ↦ ?_, hlearns.balanced hbalanced⟩
  rcases hlearns.known key hkey with hold | hnew
  · obtain ⟨x, hx, rfl⟩ := hknown key hold
    exact ⟨x, hadv.offered hx, rfl⟩
  · exact hnew

theorem Inv.initial (outageAfter : ℕ) : Inv (initial outageAfter) := by
  have hholds : DiskHolds Disk.empty 0 [] :=
    ⟨List.Pairwise.nil, by simp, by simp, by simp, by simp, fun _ _ _ ↦ rfl⟩
  refine ⟨⟨[], 0, ⟨hholds, 0, le_refl _, Or.inl ⟨rfl, rfl, rfl⟩⟩, ?_, ?_⟩, ?_, rfl⟩
  · exact List.forall_mem_nil _
  · exact List.forall_mem_nil _
  · exact fun key hkey ↦ absurd hkey (Finset.notMem_empty key)

theorem Inv.of_reachable {outageAfter : ℕ} {st : State}
    (h : Machine.Reachable carefulStep (Delivery.initial outageAfter) st) : Inv st :=
  h.invariant (Inv.initial outageAfter) Inv.step

/-- The queue of an agent, seen through its segments. -/
theorem exists_queue_eq {agent : Agent} {segs : List Segment} {c : ℕ} (h : Holds segs c agent)
    (cfg : Config) : ∃ c' ≤ c, Holds segs c' agent ∧ agent.queue cfg = live segs c' := by
  rcases agent with d | s
  · obtain ⟨hd, c', hle, hst⟩ := h
    obtain ⟨lows, -, hrep⟩ := Spool.openDir_represents (o := Spool.new d) hd hst cfg
    exact ⟨c', hle, ⟨hd, c', le_refl _, hst⟩, hrep.pending_eq⟩
  · exact ⟨c, le_refl _, h, Works.pending_eq h⟩

theorem live_suffix_queue {agent : Agent} {segs : List Segment} {c : ℕ} (h : Holds segs c agent)
    (cfg : Config) : live segs c <:+ agent.queue cfg := by
  obtain ⟨c', hle, -, hqueue⟩ := exists_queue_eq h cfg
  rw [hqueue]
  exact live_suffix_live hle segs

/-- The server was killed in a run. -/
def Restarts (actions : List Action) : Prop :=
  ∃ outageAfter, .restartServer outageAfter ∈ actions

/-- Only a server that is killed forgets. -/
theorem forgotten_of_step {st st' : State} (a : Action) (ha : ∀ n, a ≠ .restartServer n)
    (h : st.forgotten = ∅) (hstep : carefulStep st a = some st') : st'.forgotten = ∅ := by
  obtain ⟨-, hstep⟩ := Option.ite_none_right_eq_some.1 hstep
  obtain ⟨agent, cloud, forgotten, offered, accepted, evicted⟩ := st
  rcases agent with d | s
  · cases a with
    | start cfg =>
      obtain rfl := Option.some.inj hstep
      exact h
    | restartServer n => exact absurd rfl (ha n)
    | append io x | turn t | exit | killAppend io x k | killTurn t k => cases hstep
  · cases a with
    | start cfg => cases hstep
    | restartServer n => exact absurd rfl (ha n)
    | append io x | turn t | exit | killAppend io x k | killTurn t k =>
      obtain rfl := Option.some.inj hstep
      exact h

theorem restarts_of_mem_forgotten {outageAfter : ℕ} {actions : List Action} {st : State}
    (hrun : Machine.run carefulStep (initial outageAfter) actions = some st) {key : RecordKey}
    (hkey : key ∈ st.forgotten) : Restarts actions := by
  by_contra hnone
  have hothers : ∀ a ∈ actions, ∀ n, a ≠ .restartServer n := fun a ha n heq ↦ hnone ⟨n, heq ▸ ha⟩
  have hempty := Machine.run_invariant_of_forall forgotten_of_step hothers rfl hrun
  rw [hempty] at hkey
  exact absurd hkey (Finset.notMem_empty key)

/-- **Nothing is lost.** However often the process was killed and whatever the network did, each
record `append` returned `true` for is in the queue, or its id is known at the far end, or it was
evicted, or a server that was killed since knew its id; no server knows an id that was not appended,
and its counters balance. -/
theorem delivery_loses_nothing {outageAfter : ℕ} {actions : List Action} {st : State}
    (hrun : Machine.run carefulStep (initial outageAfter) actions = some st) (cfg : Config) :
    (∀ x ∈ st.accepted, x.record ∈ st.agent.queue cfg ∨ x.key ∈ st.cloud.recordIds ∨
        x.record ∈ st.evicted ∨ Restarts actions ∧ x.key ∈ st.forgotten) ∧
      (∀ key ∈ st.known, ∃ x ∈ st.offered, x.key = key) ∧
      st.cloud.recordIds.card + st.cloud.duplicates = st.cloud.records := by
  obtain ⟨⟨segs, c, hholds, hcovers⟩, hknown, hbalanced⟩ := Inv.of_reachable ⟨actions, hrun⟩
  refine ⟨fun x hx ↦ ?_, hknown, hbalanced⟩
  rcases hcovers.accepted x hx with hlive | hkey | hev
  · exact Or.inl ((live_suffix_queue hholds cfg).subset hlive)
  · rcases Finset.mem_union.1 hkey with hcloud | hold
    · exact Or.inr (Or.inl hcloud)
    · exact Or.inr (Or.inr (Or.inr ⟨restarts_of_mem_forgotten hrun hold, hold⟩))
  · exact Or.inr (Or.inr (Or.inl hev))

/-- A request is lost, and the process is killed when a part of the next record is written. -/
def killedRun : List Action :=
  [.start ⟨1000, 126⟩, .append ⟨true, none, [], .renamed⟩ (.synthetic ⟨1, 2⟩ 3 0),
    .turn ⟨⟨8, 3⟩, .lost true, false, ⟨[], .renamed⟩⟩,
    .killAppend ⟨true, some 20, [], .renamed⟩ (.synthetic ⟨1, 2⟩ 3 1) 2, .start ⟨1000, 126⟩]

set_option maxRecDepth 20000 in
/-- The first record is in the queue of the next process. -/
theorem delivery_loses_nothing_after_kill :
    ∃ st, Machine.run carefulStep (initial 0) killedRun = some st ∧
      (st.accepted.length = 1 ∧ (st.agent.queue ⟨1000, 126⟩).length = 1) ∧
      (∀ x ∈ st.accepted, x.record ∈ st.agent.queue ⟨1000, 126⟩ ∨ x.key ∈ st.cloud.recordIds ∨
          x.record ∈ st.evicted ∨ Restarts killedRun ∧ x.key ∈ st.forgotten) ∧
        (∀ key ∈ st.known, ∃ x ∈ st.offered, x.key = key) ∧
        st.cloud.recordIds.card + st.cloud.duplicates = st.cloud.records :=
  ⟨_, (Option.some_get (by decide +kernel)).symm, by decide +kernel,
    delivery_loses_nothing (Option.some_get _).symm _⟩

/-! ### The verdict of the chaos test -/

/-- `LOST`: the records appended, without as many as the server says it knows. -/
def lost (appended : ℕ) (c : Cloud) : ℕ :=
  appended - min appended c.recordIds.card

/-- Records of different origins have different ids. -/
theorem nodup_keys {records : List Entry} (h : (records.map Entry.origin).Nodup) :
    (records.map Entry.key).Nodup := by
  have hinj : Function.Injective fun o : Origin ↦ RecordKey.str o.text := fun o o' heq ↦
    Origin.text_injective (RecordKey.str.inj heq)
  have hmap := h.map hinj
  rwa [List.map_map] at hmap

/-- **The verdict of the chaos test.** When the queue has been drained and nothing was evicted, each
record that was appended is known to the server or to one that was killed. What the test counts as
lost are at most the ids that only the servers killed knew; it is none if no server was. -/
theorem chaos_verdict {outageAfter : ℕ} {actions : List Action} {st : State}
    (hrun : Machine.run carefulStep (initial outageAfter) actions = some st) {cfg : Config}
    (hdrained : st.agent.queue cfg = []) (hevicted : st.evicted = []) {appended : List Entry}
    (happended : appended ⊆ st.accepted) (horigins : (appended.map Entry.origin).Nodup) :
    (∀ x ∈ appended, x.key ∈ st.known) ∧
      lost appended.length st.cloud ≤ (st.forgotten \ st.cloud.recordIds).card ∧
      (¬ Restarts actions → lost appended.length st.cloud = 0) := by
  obtain ⟨⟨segs, c, hholds, hcovers⟩, -, -⟩ := Inv.of_reachable ⟨actions, hrun⟩
  have hmem : ∀ x ∈ appended, x.key ∈ st.known := by
    intro x hx
    rcases hcovers.accepted x (happended hx) with hlive | hkey | hev
    · have hqueue := (live_suffix_queue hholds cfg).subset hlive
      rw [hdrained] at hqueue
      cases hqueue
    · exact hkey
    · rw [hevicted] at hev
      cases hev
  have hcard : appended.length ≤
      st.cloud.recordIds.card + (st.forgotten \ st.cloud.recordIds).card := by
    rw [Nat.add_comm, Finset.card_sdiff_add_card, Finset.union_comm, ← State.known,
      ← List.length_map Entry.key, ← List.toFinset_card_of_nodup (nodup_keys horigins)]
    refine Finset.card_le_card fun key hkey ↦ ?_
    obtain ⟨x, hx, rfl⟩ := List.mem_map.1 (List.mem_toFinset.1 hkey)
    exact hmem x hx
  have hlost : lost appended.length st.cloud ≤ (st.forgotten \ st.cloud.recordIds).card := by
    rw [lost]
    omega
  refine ⟨hmem, hlost, fun hnone ↦ ?_⟩
  have hempty : st.forgotten = ∅ := Finset.eq_empty_of_forall_notMem fun key hkey ↦
    hnone (restarts_of_mem_forgotten hrun hkey)
  rw [hempty, Finset.empty_sdiff, Finset.card_empty] at hlost
  exact Nat.le_zero.1 hlost

/-- A record before the server is killed, and one after. -/
def twoServers : List Action :=
  [.start ⟨1000, 126⟩, .append ⟨true, none, [], .renamed⟩ (.synthetic ⟨1, 2⟩ 3 0),
    .turn ⟨⟨8, 3⟩, .answered, false, ⟨[], .renamed⟩⟩, .restartServer 0,
    .append ⟨true, none, [], .renamed⟩ (.synthetic ⟨1, 2⟩ 3 1),
    .turn ⟨⟨8, 3⟩, .answered, false, ⟨[], .renamed⟩⟩]

set_option maxRecDepth 20000 in
/-- Both records have arrived, and the test counts one of them as lost. -/
theorem chaos_verdict_two_servers :
    ∃ st, Machine.run carefulStep (initial 0) twoServers = some st ∧
      lost st.accepted.length st.cloud = 1 ∧ (∀ x ∈ st.accepted, x.key ∈ st.known) ∧
      lost st.accepted.length st.cloud ≤ (st.forgotten \ st.cloud.recordIds).card := by
  obtain ⟨st, hrun, hlost, hdrained, hevicted, horigins⟩ :
      ∃ st, Machine.run carefulStep (initial 0) twoServers = some st ∧
        lost st.accepted.length st.cloud = 1 ∧ st.agent.queue ⟨1000, 126⟩ = [] ∧
        st.evicted = [] ∧ (st.accepted.map Entry.origin).Nodup :=
    ⟨_, (Option.some_get (by decide +kernel)).symm, by decide +kernel⟩
  obtain ⟨hmem, hle, -⟩ := chaos_verdict hrun hdrained hevicted (List.Subset.refl _) horigins
  exact ⟨st, hrun, hlost, hmem, hle⟩

/-! ### A record that cannot be delivered -/

/-- What every careful action keeps of a bad record: it was evicted, or it is still in the queue
with everything behind it. -/
structure Blocks (r : Bytes) (back : List Bytes) (st : State) : Prop where
  stuck : ∃ segs c, Holds segs c st.agent ∧ Covers st segs c ∧
    (r ∈ st.evicted ∨ ∃ more, r :: (back ++ more) <:+ live segs c)

/-- A suffix that begins behind the first `n` items. -/
theorem suffix_drop_of_not_mem_take {α : Type*} {l front : List α} {r : α} {n : ℕ} {back : List α}
    (h : l = front ++ r :: back) (hn : r ∉ l.take n) : r :: back <:+ l.drop n := by
  rcases Nat.lt_or_ge front.length n with hlt | hge
  · refine absurd ?_ hn
    rw [h, List.mem_take_iff_getElem]
    exact ⟨front.length, by simp [hlt], by simp⟩
  · rw [h, List.drop_append_of_le_length hge]
    exact List.suffix_append _ _

theorem Blocks.step {r : Bytes} {back : List Bytes} (hbad : ¬ Utf8.Valid r) {st st' : State}
    (a : Action) (h : Blocks r back st) (hstep : carefulStep st a = some st') :
    Blocks r back st' := by
  obtain ⟨segs, c, hholds, hcovers, hstuck⟩ := h
  obtain ⟨segs', c', hholds', hadv, -⟩ := advances_of_step hstep hholds hcovers
  refine ⟨segs', c', hholds', hcovers.next hadv, ?_⟩
  rcases hstuck with hev | ⟨more, front, hlive⟩
  · exact Or.inl (hadv.evicted hev)
  · obtain ⟨new, n, haccounted, hreleased, -, -⟩ := hadv.queue
    by_cases hmem : r ∈ (live segs c ++ new).take n
    · rcases hreleased with hev | hvalid
      · exact Or.inl (hev r hmem)
      · exact absurd (hvalid r hmem).1 hbad
    · have hsplit : live segs c ++ new = front ++ r :: (back ++ (more ++ new)) := by
        rw [← hlive]
        simp
      exact Or.inr ⟨more ++ new, (suffix_drop_of_not_mem_take hsplit hmem).trans haccounted.live⟩

/-- **A record that is not UTF-8 holds up everything behind it.** Whatever happens afterwards, with
any batch sizes, processes and networks, it leaves the queue only by eviction, and until then
nothing that was behind it leaves the queue. -/
theorem bad_record_holds_up {outageAfter : ℕ} {st st' : State}
    (h : Machine.Reachable carefulStep (initial outageAfter) st) {cfg : Config} {r : Bytes}
    {back : List Bytes} (hqueue : r :: back <:+ st.agent.queue cfg) (hbad : ¬ Utf8.Valid r)
    {actions : List Action} (hrun : Machine.run carefulStep st actions = some st')
    (cfg' : Config) :
    r ∈ st'.evicted ∨ ∃ more, r :: (back ++ more) <:+ st'.agent.queue cfg' := by
  obtain ⟨⟨segs, c, hholds, hcovers⟩, -, -⟩ := Inv.of_reachable h
  obtain ⟨c₀, hle, hholds₀, heq⟩ := exists_queue_eq hholds cfg
  have hstart : Blocks r back st := by
    refine ⟨segs, c₀, hholds₀, ⟨fun x hx ↦ ?_, hcovers.stored⟩, Or.inr ⟨[], ?_⟩⟩
    · exact (hcovers.accepted x hx).imp_left fun hl ↦ (live_suffix_live hle segs).subset hl
    · rwa [List.append_nil, ← heq]
  obtain ⟨segs', c', hholds', -, hstuck⟩ := (Machine.run_invariant (Blocks.step hbad) actions
    hstart hrun).stuck
  exact hstuck.imp_right fun ⟨more, hmore⟩ ↦
    ⟨more, hmore.trans (live_suffix_queue hholds' cfg')⟩

/-- The first record of a new spool. -/
theorem pending_append_start (cfg : Config) {io : AppendIo} {payload : Bytes}
    (hok : ((Spool.start cfg).append io payload).error = none) :
    ((Spool.start cfg).append io payload).spool.pending = [payload] := by
  have hclean := Clean.start cfg
  obtain ⟨lows, hrep⟩ := hclean.tracks.represents
  obtain ⟨low, segs, c, -, htracks, heffect⟩ := hclean.tracks.append
    (Spool.active_ne_zero (Spool.inRange_start cfg)) (hclean.whole.canAppend _) hok
  obtain ⟨k, hk, -, hlive⟩ := heffect.live_append hrep
  obtain ⟨lows', hrep'⟩ := htracks.represents
  rw [live_nil, List.length_nil, Nat.le_zero] at hk
  rw [hk, live_nil] at hlive
  exact hrep'.pending_eq.trans hlive

/-- The inventory of a host whose name is the byte 255, and a turn whose request is lost. -/
theorem bad_record_holds_up_first :
    ∃ st st' : State, ∃ x : Entry,
      Machine.run carefulStep (initial 0)
        [.start ⟨1000, 126⟩, .append ⟨true, none, [], .renamed⟩ x] = some st ∧
      Machine.run carefulStep st [.turn ⟨⟨1, 3⟩, .lost true, false, ⟨[], .renamed⟩⟩] = some st' ∧
      (x.record ∈ st'.evicted ∨
        ∃ more, x.record :: ([] ++ more) <:+ st'.agent.queue ⟨1000, 126⟩) := by
  refine ⟨_, _, .inventory ⟨1, 2⟩ 3
      ⟨[], [], [], [], 0, 0, ⟨[0xFF], [], [], [], []⟩, [], [], [], [], []⟩,
    (Option.some_get (by decide +kernel)).symm, (Option.some_get (by decide +kernel)).symm, ?_⟩
  refine bad_record_holds_up (Machine.reachable_of_isSome _)
    (show _ <:+ Agent.queue ⟨1000, 126⟩ _ from ?_) (fun hvalid ↦ ?_) (Option.some_get _).symm _
  · exact ⟨[], (pending_append_start ⟨1000, 126⟩ (show (Spool.append _ ⟨true, none, [], .renamed⟩
      _).error = none by decide +kernel)).symm⟩
  · have hname := (valid_toJson _ _).1 ((valid_makeRecord _ _ _).1 hvalid).2.2 [0xFF]
      (by simp [Inventory.strings, HostInfo.strings])
    exact absurd (Utf8.valid_singleton_iff.1 hname) (by decide)

end Delivery

end NanoSensor
