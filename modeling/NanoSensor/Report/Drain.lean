import NanoSensor.Spool.Queue

/-!
# Draining the spool

`Reporter::drain` of `src/main.cpp`: take a batch off the front of the spool, post it, release it
when the far end acknowledged it, and go round again; on a failed post back off and retry, or give
up and leave the records where they are.

What the loop meets outside the program is a `World`: whether a stop has been requested when a turn
begins, what a post of a given body brings back, and how the calls of `commit` turn out. All three
are functions of the number of posts made so far, so a `World` is any sequence of results and any
moment of stopping. `drain o w s n` is the state after `n` turns; the loop has no counter of its
own, and nothing says that it ends.

Two results, both about every reachable spool. **Nothing leaves the queue unacknowledged**
(`drain_releases_acknowledged`), whatever the transport does. **The drain completes** under a
transport that acknowledges everything exactly when no batch ends at the end of a rolled segment
(`drain_completes_iff`): a batch that does leaves the cursor where `commit` is stuck, and the loop
posts the next batch for ever.

Left out: log lines, the length of the backoff, and the sleep (a stop requested in it is seen at the
top of the next turn).
-/

namespace NanoSensor

open Bytes

/-- The parts of `Options` that `drain` reads. -/
structure DrainOptions where
  batchSize : ℕ
  maxAttempts : ℤ
  deriving DecidableEq, Repr

/-- The parts of `Transport::Result` that `drain` branches on. -/
structure PostResult where
  ok : Bool
  retryable : Bool
  deriving DecidableEq, Repr

/-- What happens around a drain, by the number of posts made so far. -/
structure World where
  stopRequested : ℕ → Bool
  post : ℕ → Bytes → PostResult
  save : ℕ → CommitIo

/-- A batch that was posted, and what came back. -/
structure Posted where
  batch : List Bytes
  result : PostResult
  deriving DecidableEq, Repr

/-- The locals of `drain`, with the spool, the posts made so far and whether the loop goes on. -/
structure Drain where
  spool : Spool
  sent : ℕ
  gaveUp : Bool
  attempt : ℕ
  posts : List Posted
  running : Bool

namespace Reporter

/-- The request body of a batch. -/
def requestBody (batch : List Bytes) : Bytes :=
  ofString "\x7b\"records\":[" ++ (ofString ",").intercalate batch ++ ofString "]\x7d"

/-- The payloads of the next batch: `spool.peek(opt.batch_size, err)`. -/
def nextBatch (o : DrainOptions) (s : Spool) : List Bytes :=
  (s.peek o.batchSize).1.map Record.payload

/-- One turn of the loop of `drain`. -/
def turn (o : DrainOptions) (w : World) (d : Drain) : Drain :=
  let i := d.posts.length
  if w.stopRequested i then { d with running := false }
  else
    let batch := nextBatch o d.spool
    if batch = [] then { d with running := false }
    else
      let result := w.post i (requestBody batch)
      let d := { d with posts := d.posts ++ [Posted.mk batch result] }
      if result.ok then
        match d.spool.commit (w.save i) batch.length with
        | ⟨some _, s⟩ => { d with spool := s, gaveUp := true, running := false }
        | ⟨none, s⟩ => { d with spool := s, sent := d.sent + batch.length, attempt := 0 }
      else if !result.retryable then { d with gaveUp := true, running := false }
      else
        let d := { d with attempt := d.attempt + 1 }
        if (d.attempt : ℤ) ≥ o.maxAttempts then { d with gaveUp := true, running := false }
        else d

/-- `Reporter::drain` on the spool `s`, after `n` turns. -/
def drain (o : DrainOptions) (w : World) (s : Spool) : (n : ℕ) → Drain
  | 0 => ⟨s, 0, false, 0, [], true⟩
  | n + 1 => if (drain o w s n).running then turn o w (drain o w s n) else drain o w s n

/-! ### What a turn does -/

section Turn

variable {o : DrainOptions} {w : World} {d : Drain}

/-- A turn that posts, and what the post brought back. -/
structure Posts (o : DrainOptions) (w : World) (d : Drain) (result : PostResult) : Prop where
  go_on : w.stopRequested d.posts.length = false
  batch_ne_nil : nextBatch o d.spool ≠ []
  result_eq : w.post d.posts.length (requestBody (nextBatch o d.spool)) = result

theorem turn_of_stop (h : w.stopRequested d.posts.length = true ∨ nextBatch o d.spool = []) :
    turn o w d = { d with running := false } := by
  rw [turn]
  rcases hstop : w.stopRequested d.posts.length
  · exact if_pos (h.resolve_left (by simp [hstop]))
  · rfl

/-- The commit of the batch a turn takes off the spool. -/
def commitBatch (o : DrainOptions) (w : World) (d : Drain) : Outcome :=
  d.spool.commit (w.save d.posts.length) (nextBatch o d.spool).length

/-- An acknowledged batch is committed; whether the loop goes on depends on the cursor. -/
theorem turn_of_acknowledged {result : PostResult} (h : Posts o w d result)
    (hok : result.ok = true) :
    turn o w d =
      if (commitBatch o w d).error = none then
        { d with
          spool := (commitBatch o w d).spool
          sent := d.sent + (nextBatch o d.spool).length
          attempt := 0
          posts := d.posts ++ [⟨nextBatch o d.spool, result⟩] }
      else
        { d with
          spool := (commitBatch o w d).spool
          gaveUp := true
          posts := d.posts ++ [⟨nextBatch o d.spool, result⟩]
          running := false } := by
  rw [turn, h.go_on]
  simp only [Bool.false_eq_true, if_false, if_neg h.batch_ne_nil, h.result_eq, hok, if_true]
  unfold commitBatch
  generalize d.spool.commit (w.save d.posts.length) (nextBatch o d.spool).length = out
  rcases out with ⟨- | e, s⟩
  · rfl
  · rfl

/-- An acknowledged batch is committed, and the loop goes on. -/
theorem turn_of_ok {result : PostResult} (h : Posts o w d result) (hok : result.ok = true)
    (hsave : (commitBatch o w d).error = none) :
    turn o w d = { d with
      spool := (commitBatch o w d).spool
      sent := d.sent + (nextBatch o d.spool).length
      attempt := 0
      posts := d.posts ++ [⟨nextBatch o d.spool, result⟩] } := by
  rw [turn_of_acknowledged h hok, if_pos hsave]

/-- When the cursor cannot be saved, the loop ends with an acknowledged batch. -/
theorem turn_of_unsaved {result : PostResult} (h : Posts o w d result) (hok : result.ok = true)
    (hsave : (commitBatch o w d).error ≠ none) :
    turn o w d = { d with
      spool := (commitBatch o w d).spool
      gaveUp := true
      posts := d.posts ++ [⟨nextBatch o d.spool, result⟩]
      running := false } := by
  rw [turn_of_acknowledged h hok, if_neg hsave]

/-- A batch that was not acknowledged stays where it is. -/
theorem turn_of_failed {result : PostResult} (h : Posts o w d result) (hok : result.ok = false) :
    (turn o w d).spool = d.spool ∧
      (turn o w d).posts = d.posts ++ [⟨nextBatch o d.spool, result⟩] := by
  rw [turn, h.go_on]
  simp only [Bool.false_eq_true, if_false, if_neg h.batch_ne_nil, h.result_eq, hok]
  split
  · exact ⟨rfl, rfl⟩
  · split <;> exact ⟨rfl, rfl⟩

/-- A failure that is not worth a retry ends the loop, however many attempts are left. -/
theorem turn_of_permanent {result : PostResult} (h : Posts o w d result) (hok : result.ok = false)
    (hretry : result.retryable = false) :
    turn o w d = { d with
      gaveUp := true
      posts := d.posts ++ [⟨nextBatch o d.spool, result⟩]
      running := false } := by
  rw [turn, h.go_on]
  simp only [Bool.false_eq_true, if_false, if_neg h.batch_ne_nil, h.result_eq, hok, hretry,
    Bool.not_false, if_true]

/-- **Every turn** stops without posting, or posts one batch. -/
theorem stops_or_posts (o : DrainOptions) (w : World) (d : Drain) :
    (w.stopRequested d.posts.length = true ∨ nextBatch o d.spool = []) ∨
      ∃ result, Posts o w d result := by
  rcases hstop : w.stopRequested d.posts.length
  · rcases eq_or_ne (nextBatch o d.spool) [] with hnil | hne
    · exact Or.inl (Or.inr hnil)
    · exact Or.inr ⟨_, hstop, hne, rfl⟩
  · exact Or.inl (Or.inl rfl)

end Turn

/-! ### What a run does -/

/-- The `n`-th turn, as far as the queue and the posts are concerned. -/
inductive Step (o : DrainOptions) (n : ℕ) (d d' : Drain) : Prop
  | idle (spool : d'.spool = d.spool) (posts : d'.posts = d.posts)
  | failed (p : Posted) (count : d.posts.length = n) (posts : d'.posts = d.posts ++ [p])
    (batch : p.batch = d.spool.pending.take o.batchSize) (result : p.result.ok = false)
    (spool : d'.spool = d.spool)
  | acknowledged (p : Posted) (k : ℕ) (count : d.posts.length = n)
    (posts : d'.posts = d.posts ++ [p])
    (batch : p.batch = d.spool.pending.take o.batchSize) (result : p.result.ok = true)
    (le : k ≤ p.batch.length) (pending : d'.spool.pending = d.spool.pending.drop k)
    (committed : d'.spool.stats.committed = d.spool.stats.committed + k)

section Runs

variable {o : DrainOptions} {w : World} {s : Spool} {history : List Bytes} {low : ℕ}
  {segs : List Segment} {c : ℕ}

/-- The next batch is the front of the queue. -/
theorem nextBatch_eq (h : Clean s history low segs c) (o : DrainOptions) :
    nextBatch o s = s.pending.take o.batchSize := by
  obtain ⟨lows, hrep⟩ := h.tracks.represents
  rw [nextBatch, hrep.peek_eq, Spool.map_payload_numbered, takeUpTo_coe, hrep.pending_eq]

/-- A drain that is still running has posted once a turn, and its spool is undamaged. -/
theorem running_spec (h : Clean s history low segs c) :
    ∀ {n : ℕ}, (drain o w s n).running = true →
      (drain o w s n).posts.length = n ∧
        ∃ low' segs' c', Clean (drain o w s n).spool history low' segs' c' := by
  intro n
  induction n with
  | zero => exact fun _ ↦ ⟨rfl, low, segs, c, h⟩
  | succ n ih =>
    intro hrun
    rcases hbefore : (drain o w s n).running with - | -
    · rw [drain, if_neg (by simp [hbefore]), hbefore] at hrun
      cases hrun
    · obtain ⟨hlen, low', segs', c', hclean⟩ := ih hbefore
      rw [drain, if_pos hbefore] at hrun ⊢
      rcases stops_or_posts o w (drain o w s n) with hstop | ⟨result, hpost⟩
      · rw [turn_of_stop hstop] at hrun
        cases hrun
      · rcases hok : result.ok with - | -
        · obtain ⟨hspool, hposts⟩ := turn_of_failed hpost hok
          rw [hspool, hposts, List.length_append, hlen]
          exact ⟨rfl, low', segs', c', hclean⟩
        · rcases eq_or_ne (commitBatch o w (drain o w s n)).error none with hsave | hsave
          · obtain ⟨low'', -, hclean'⟩ := hclean.commit hsave
            rw [turn_of_ok hpost hok hsave, List.length_append, hlen]
            exact ⟨rfl, low'', _, _, hclean'⟩
          · rw [turn_of_unsaved hpost hok hsave] at hrun
            cases hrun

/-- **Every turn is a step.** -/
theorem drain_step (h : Clean s history low segs c) (n : ℕ) :
    Step o n (drain o w s n) (drain o w s (n + 1)) := by
  rcases hrun : (drain o w s n).running with - | -
  · rw [drain, if_neg (by simp [hrun])]
    exact .idle rfl rfl
  · obtain ⟨hlen, low', segs', c', hclean⟩ := running_spec h hrun
    have hbatch := nextBatch_eq hclean o
    rw [drain, if_pos hrun]
    rcases stops_or_posts o w (drain o w s n) with hstop | ⟨result, hpost⟩
    · rw [turn_of_stop hstop]
      exact .idle rfl rfl
    · rcases hok : result.ok with - | -
      · obtain ⟨hspool, hposts⟩ := turn_of_failed hpost hok
        exact .failed _ hlen hposts hbatch hok hspool
      · -- the batch is released whether or not the cursor can be saved
        obtain ⟨lows, hrep⟩ := hclean.tracks.represents
        have hpending := hclean.commit_pending (w.save (drain o w s n).posts.length)
          (nextBatch o (drain o w s n).spool).length
        rw [← hrep.pending_eq] at hpending
        have hle := SegQueue.count_release_le Segment.slots segs' c'
          (nextBatch o (drain o w s n).spool).length
        rcases eq_or_ne (commitBatch o w (drain o w s n)).error none with hsave | hsave
        · rw [turn_of_ok hpost hok hsave]
          exact .acknowledged _ _ hlen rfl hbatch hok hle hpending.1 hpending.2
        · rw [turn_of_unsaved hpost hok hsave]
          exact .acknowledged _ _ hlen rfl hbatch hok hle hpending.1 hpending.2

/-- How many records the drain has released after `n` turns. -/
def released (o : DrainOptions) (w : World) (s : Spool) (n : ℕ) : ℕ :=
  (drain o w s n).spool.stats.committed - s.stats.committed

theorem committed_le (h : Clean s history low segs c) (n : ℕ) :
    s.stats.committed ≤ (drain o w s n).spool.stats.committed := by
  induction n with
  | zero => exact le_refl _
  | succ n ih =>
    cases drain_step (o := o) (w := w) h n with
    | idle spool => rwa [spool]
    | failed p count posts batch result spool => rwa [spool]
    | acknowledged p k count posts batch result le pending committed => omega

/-- The queue after `n` turns is the queue at the start, less the records released. -/
theorem pending_drain (h : Clean s history low segs c) (n : ℕ) :
    (drain o w s n).spool.pending = s.pending.drop (released o w s n) := by
  induction n with
  | zero => rw [released, drain, Nat.sub_self, List.drop_zero]
  | succ n ih =>
    cases drain_step (o := o) (w := w) h n with
    | idle spool => rwa [released, spool]
    | failed p count posts batch result spool => rwa [released, spool]
    | acknowledged p k count posts batch result le pending committed =>
      have hle := committed_le (o := o) (w := w) h n
      rw [pending, ih, List.drop_drop, released, released, committed,
        Nat.sub_add_comm hle]

/-- Every record released was in a batch that was acknowledged. -/
theorem acknowledged_of_lt_released (h : Clean s history low segs c) (n : ℕ) {i : ℕ}
    (hi : i < released o w s n) :
    ∃ j p, (drain o w s n).posts[j]? = some p ∧ p.result.ok = true ∧
      released o w s j ≤ i ∧ i < released o w s j + p.batch.length := by
  induction n with
  | zero => simp [released, drain] at hi
  | succ n ih =>
    -- a post made before this turn is still on record after it
    have hkeep : ∀ {l : List Posted}, (drain o w s (n + 1)).posts = (drain o w s n).posts ++ l →
        i < released o w s n → ∃ j p, (drain o w s (n + 1)).posts[j]? = some p ∧
          p.result.ok = true ∧ released o w s j ≤ i ∧ i < released o w s j + p.batch.length := by
      intro l hposts hlt
      obtain ⟨j, p, hget, hp⟩ := ih hlt
      refine ⟨j, p, ?_, hp⟩
      rw [hposts, List.getElem?_append_left (List.getElem?_eq_some_iff.1 hget).1, hget]
    cases drain_step (o := o) (w := w) h n with
    | idle spool posts =>
      refine hkeep (l := []) (by rw [posts, List.append_nil]) ?_
      rwa [released, spool] at hi
    | failed p count posts batch result spool =>
      refine hkeep posts ?_
      rwa [released, spool] at hi
    | acknowledged p k count posts batch result le pending committed =>
      rcases Nat.lt_or_ge i (released o w s n) with hlt | hge
      · exact hkeep posts hlt
      · refine ⟨n, p, ?_, result, hge, ?_⟩
        · rw [posts, List.getElem?_append_right count.le, count, Nat.sub_self]
          rfl
        · rw [released, committed] at hi
          have hle := committed_le (o := o) (w := w) h n
          rw [released]
          omega

/-- Every batch was the front of the queue when it was posted. -/
theorem batch_of_posts (h : Clean s history low segs c) (n : ℕ) {j : ℕ} {p : Posted}
    (hp : (drain o w s n).posts[j]? = some p) :
    p.batch = (drain o w s j).spool.pending.take o.batchSize := by
  induction n with
  | zero => simp [drain] at hp
  | succ n ih =>
    have hlast : ∀ {q : Posted}, (drain o w s n).posts.length = n →
        (drain o w s (n + 1)).posts = (drain o w s n).posts ++ [q] →
        q.batch = (drain o w s n).spool.pending.take o.batchSize →
        p.batch = (drain o w s j).spool.pending.take o.batchSize := by
      intro q count posts batch
      rw [posts] at hp
      rcases Nat.lt_or_ge j n with hlt | hge
      · exact ih (by rwa [List.getElem?_append_left (by omega)] at hp)
      · rw [List.getElem?_append_right (by omega), count] at hp
        obtain rfl : j = n := by
          have := (List.getElem?_eq_some_iff.1 hp).1
          rw [List.length_singleton] at this
          omega
        rw [Nat.sub_self] at hp
        rw [← Option.some.inj hp, batch]
    cases drain_step (o := o) (w := w) h n with
    | idle spool posts => exact ih (posts ▸ hp)
    | failed q count posts batch result spool => exact hlast count posts batch
    | acknowledged q k count posts batch => exact hlast count posts batch

/-- A run of turns without an acknowledgement leaves the spool alone. -/
theorem spool_eq_of_failed (h : Clean s history low segs c) {j n : ℕ} (hj : j ≤ n)
    (hfailed : ∀ p ∈ (drain o w s n).posts.drop j, p.result.ok = false) :
    (drain o w s n).spool = (drain o w s j).spool := by
  induction n with
  | zero => rw [Nat.le_zero.1 hj]
  | succ n ih =>
    rcases hj.eq_or_lt with rfl | hlt
    · rfl
    · have hjn : j ≤ n := Nat.lt_succ_iff.1 hlt
      cases drain_step (o := o) (w := w) h n with
      | idle spool posts => rw [spool, ih hjn (posts ▸ hfailed)]
      | failed p count posts batch result spool =>
        refine spool.trans (ih hjn fun q hq ↦ hfailed q ?_)
        rw [posts, List.drop_append_of_le_length (hjn.trans_eq count.symm)]
        exact List.mem_append_left _ hq
      | acknowledged p k count posts batch result =>
        have hp := hfailed p (by
          rw [posts, List.drop_append_of_le_length (hjn.trans_eq count.symm)]
          simp)
        rw [result] at hp
        cases hp

end Runs

/-- **Nothing leaves the queue unacknowledged.** After any number of turns the queue is the one the
drain started with, less some records from its front, and each of those was in a batch whose post
returned ok; every batch was a prefix of the queue as it stood; and since the last acknowledgement
the queue has not changed. -/
theorem drain_releases_acknowledged {s : Spool} (hs : s.Reachable) (o : DrainOptions) (w : World)
    (n : ℕ) :
    (drain o w s n).spool.pending = s.pending.drop (released o w s n) ∧
      (∀ i < released o w s n, ∃ j p, (drain o w s n).posts[j]? = some p ∧ p.result.ok = true ∧
        released o w s j ≤ i ∧ i < released o w s j + p.batch.length) ∧
      (∀ j p, (drain o w s n).posts[j]? = some p →
        p.batch = (drain o w s j).spool.pending.take o.batchSize) ∧
      ∀ j ≤ n, (∀ p ∈ (drain o w s n).posts.drop j, p.result.ok = false) →
        (drain o w s n).spool.pending = (drain o w s j).spool.pending := by
  obtain ⟨-, history, low, segs, c, h⟩ := hs.clean
  refine ⟨pending_drain h n, fun i hi ↦ acknowledged_of_lt_released h n hi,
    fun j p hp ↦ batch_of_posts h n hp, fun j hj hfailed ↦ ?_⟩
  rw [spool_eq_of_failed h hj hfailed]

/-- Two records in one segment, batches of one, and a transport that fails once before it
acknowledges. -/
theorem drain_releases_acknowledged_retry : ∃ (s : Spool) (o : DrainOptions) (w : World),
    s.Reachable ∧ s.pending = [[1], [2]] ∧ released o w s 4 = 2 ∧
    (drain o w s 4).spool.pending = s.pending.drop (released o w s 4) ∧
      (∀ i < released o w s 4, ∃ j p, (drain o w s 4).posts[j]? = some p ∧ p.result.ok = true ∧
        released o w s j ≤ i ∧ i < released o w s j + p.batch.length) ∧
      (∀ j p, (drain o w s 4).posts[j]? = some p →
        p.batch = (drain o w s j).spool.pending.take o.batchSize) ∧
      ∀ j ≤ 4, (∀ p ∈ (drain o w s 4).posts.drop j, p.result.ok = false) →
        (drain o w s 4).spool.pending = (drain o w s j).spool.pending := by
  have hs := Spool.reachable_after ⟨1000, 100⟩
    [.append ⟨true, none, [], .renamed⟩ [1], .append ⟨true, none, [], .renamed⟩ [2]]
  exact ⟨_, ⟨1, 6⟩, ⟨fun _ ↦ false, fun i _ ↦ ⟨i != 0, true⟩, fun _ ↦ ⟨[], .renamed⟩⟩, hs,
    by decide +kernel, by decide +kernel, drain_releases_acknowledged hs _ _ 4⟩

/-! ### Progress -/

section Progress

variable {o : DrainOptions} {w : World} {s : Spool} {history : List Bytes} {low : ℕ}
  {segs : List Segment} {c m : ℕ}

theorem drain_of_not_running {n : ℕ} (h : (drain o w s n).running = false) (k : ℕ) :
    drain o w s (n + k) = drain o w s n := by
  induction k with
  | zero => rfl
  | succ k ih => rw [← Nat.add_assoc, drain, ih, if_neg (by simp [h])]

/-- Committing a batch goes through exactly when the cursor can be saved. -/
theorem commitBatch_error {d : Drain} (h : Clean d.spool history low segs c)
    (hne : nextBatch o d.spool ≠ []) :
    (commitBatch o w d).error = none ↔ (w.save d.posts.length).save.succeeds = true := by
  rw [commitBatch, Spool.commit_of_pos h.tracks.isOpen (List.length_pos_iff.2 hne)]
  exact Spool.saveState_error _ _

/-- The drain is running after `m` turns, and the segments and the cursor are `segs` and `c`. -/
structure Going (o : DrainOptions) (w : World) (s : Spool) (m : ℕ) (history : List Bytes)
    (segs : List Segment) (c : ℕ) : Prop where
  running : (drain o w s m).running = true
  count : (drain o w s m).posts.length = m
  clean : ∃ low, Clean (drain o w s m).spool history low segs c

/-- A turn on a non-empty queue posts, if no stop is requested. -/
theorem Going.posts (hb : 1 ≤ o.batchSize) (h : Going o w s m history segs c)
    (hstop : w.stopRequested m = false) (hne : (drain o w s m).spool.pending ≠ []) :
    Posts o w (drain o w s m) (w.post m (requestBody (nextBatch o (drain o w s m).spool))) := by
  obtain ⟨low, hclean⟩ := h.clean
  refine ⟨h.count.symm ▸ hstop, ?_, by rw [h.count]⟩
  rw [nextBatch_eq hclean, Ne, List.take_eq_nil_iff, not_or]
  exact ⟨by omega, hne⟩

/-- A turn whose batch was acknowledged and whose cursor was saved. -/
theorem Going.saved (h : Going o w s m history segs c) {result : PostResult}
    (hpost : Posts o w (drain o w s m) result) (hok : result.ok = true)
    (hsave : (w.save m).save.succeeds = true) {k : ℕ}
    (hk : k = min o.batchSize (drain o w s m).spool.pending.length) :
    Going o w s (m + 1) history (SegQueue.release Segment.slots segs c k).segs
        (SegQueue.release Segment.slots segs c k).consumed ∧
      (drain o w s (m + 1)).spool.pending = (drain o w s m).spool.pending.drop
        (SegQueue.release Segment.slots segs c k).count ∧
      (drain o w s (m + 1)).attempt = 0 ∧
      (drain o w s (m + 1)).sent = (drain o w s m).sent + k ∧
      (drain o w s (m + 1)).posts.flatMap Posted.batch =
        (drain o w s m).posts.flatMap Posted.batch ++ (drain o w s m).spool.pending.take k := by
  obtain ⟨low, hclean⟩ := h.clean
  obtain ⟨lows, hrep⟩ := hclean.tracks.represents
  have herr := (commitBatch_error (w := w) hclean hpost.batch_ne_nil).2 (h.count.symm ▸ hsave)
  have hbatch : nextBatch o (drain o w s m).spool = (drain o w s m).spool.pending.take k := by
    rw [nextBatch_eq hclean, hk, List.take_eq_take_iff]
    omega
  have hlen : (nextBatch o (drain o w s m).spool).length = k := by
    rw [hbatch, List.length_take]
    omega
  have hturn : drain o w s (m + 1) = _ := (if_pos h.running).trans (turn_of_ok hpost hok herr)
  rw [commitBatch, hlen] at herr hturn
  obtain ⟨low', -, hclean'⟩ := hclean.commit herr
  rw [hturn]
  refine ⟨⟨?_, ?_, low', ?_⟩, ?_, rfl, rfl, ?_⟩
  · rw [hturn]
    exact h.running
  · rw [hturn, List.length_append, h.count]
    rfl
  · rw [hturn]
    exact hclean'
  · rw [hrep.pending_eq]
    exact (hclean.commit_pending _ _).1
  · simp [hbatch]

/-- A turn whose batch was acknowledged and whose cursor could not be saved is the last one. -/
theorem Going.unsaved (h : Going o w s m history segs c) {result : PostResult}
    (hpost : Posts o w (drain o w s m) result) (hok : result.ok = true)
    (hsave : (w.save m).save.succeeds = false) :
    (drain o w s (m + 1)).running = false ∧
      (drain o w s (m + 1)).sent = (drain o w s m).sent ∧
      ∃ k, (drain o w s (m + 1)).spool.pending = (drain o w s m).spool.pending.drop
        (SegQueue.release Segment.slots segs c k).count := by
  obtain ⟨low, hclean⟩ := h.clean
  obtain ⟨lows, hrep⟩ := hclean.tracks.represents
  have herr : (commitBatch o w (drain o w s m)).error ≠ none := by
    rw [Ne, commitBatch_error hclean hpost.batch_ne_nil, h.count, hsave]
    decide
  rw [drain, if_pos h.running, turn_of_unsaved hpost hok herr]
  refine ⟨rfl, rfl, (nextBatch o (drain o w s m).spool).length, ?_⟩
  rw [hrep.pending_eq]
  exact (hclean.commit_pending _ _).1

/-- At the end of a rolled segment something is left. -/
theorem Going.pending_ne_nil (h : Going o w s m history segs c)
    (hstalled : SegQueue.Stalled Segment.slots segs c) : (drain o w s m).spool.pending ≠ [] := by
  obtain ⟨low, hclean⟩ := h.clean
  obtain ⟨lows, hrep⟩ := hclean.tracks.represents
  rw [hrep.pending_eq]
  exact hclean.live_ne_nil_of_atRolledEnd (hclean.atRolledEnd_iff.2 hstalled)

/-- Away from a segment end, the turn releases the whole batch and brings the segment ends
closer. -/
theorem Going.advance (h : Going o w s m history segs c) {result : PostResult}
    (hpost : Posts o w (drain o w s m) result) (hok : result.ok = true)
    (hsave : (w.save m).save.succeeds = true) (hfree : ¬ SegQueue.Stalled Segment.slots segs c)
    {k : ℕ} (hk : k = min o.batchSize (drain o w s m).spool.pending.length) :
    ∃ segs' c', Going o w s (m + 1) history segs' c' ∧
      (∀ x, x ∈ SegQueue.boundaries Segment.slots segs' c' ↔
        x + k ∈ SegQueue.boundaries Segment.slots segs c) ∧
      (drain o w s (m + 1)).spool.pending = (drain o w s m).spool.pending.drop k ∧
      (drain o w s (m + 1)).attempt = 0 ∧
      (drain o w s (m + 1)).sent = (drain o w s m).sent + k ∧
      (drain o w s (m + 1)).posts.flatMap Posted.batch =
        (drain o w s m).posts.flatMap Posted.batch ++ (drain o w s m).spool.pending.take k := by
  obtain ⟨low, hclean⟩ := h.clean
  obtain ⟨lows, hrep⟩ := hclean.tracks.represents
  have hcount : (SegQueue.release Segment.slots segs c k).count = k := by
    refine (hclean.commit_count ?_).1 (mt hclean.atRolledEnd_iff.1 hfree)
    rw [← hrep.pending_eq]
    omega
  obtain ⟨hgoing, hpending, hrest⟩ := h.saved hpost hok hsave hk
  rw [hcount] at hpending
  refine ⟨_, _, hgoing, fun x ↦ ?_, hpending, hrest⟩
  rw [SegQueue.mem_boundaries_release _ hrep.cursorIn hclean.whole.slots_ne_nil, hcount]

/-- A drain that is going ends later. -/
theorem Going.lt_of_ended {n : ℕ} (h : Going o w s m history segs c)
    (hended : (drain o w s n).running = false) : m < n := by
  refine not_le.1 fun hle ↦ ?_
  obtain ⟨j, rfl⟩ := Nat.exists_eq_add_of_le hle
  have hrunning := h.running
  rw [drain_of_not_running hended, hended] at hrunning
  cases hrunning

variable (hb : 1 ≤ o.batchSize) (hstop : ∀ i, w.stopRequested i = false)
  (hok : ∀ i body, (w.post i body).ok = true)

include hb hstop hok

/-- At the end of a rolled segment the drain never empties the queue. -/
theorem Going.stuck (h : Going o w s m history segs c)
    (hstalled : SegQueue.Stalled Segment.slots segs c) (k : ℕ) :
    (drain o w s (m + k)).spool.pending ≠ [] ∧
      ((drain o w s (m + k)).running = true → Going o w s (m + k) history segs c) := by
  have hrelease := SegQueue.release_of_stalled Segment.slots hstalled
  induction k with
  | zero => exact ⟨h.pending_ne_nil hstalled, fun _ ↦ h⟩
  | succ k ih =>
    obtain ⟨hne, hgoing⟩ := ih
    rcases hrun : (drain o w s (m + k)).running with - | -
    · rw [← Nat.add_assoc, drain_of_not_running hrun 1, hrun]
      exact ⟨hne, fun hrun' ↦ by cases hrun'⟩
    · have hpost := (hgoing hrun).posts hb (hstop _) hne
      rcases hsave : (w.save (m + k)).save.succeeds with - | -
      · obtain ⟨hended, -, j, hpending⟩ := (hgoing hrun).unsaved hpost (hok _ _) hsave
        rw [hrelease, List.drop_zero] at hpending
        rw [← Nat.add_assoc, hpending, hended]
        exact ⟨hne, fun hrun' ↦ by cases hrun'⟩
      · obtain ⟨hgoing', hpending, -⟩ := (hgoing hrun).saved hpost (hok _ _) hsave rfl
        rw [hrelease] at hgoing' hpending
        rw [← Nat.add_assoc, hpending]
        exact ⟨hne, fun _ ↦ hgoing'⟩

/-- When no batch ends at the end of a rolled segment, the drain completes. -/
theorem Going.completes : ∀ {N m : ℕ} {segs : List Segment} {c : ℕ},
    Going o w s m history segs c → (drain o w s m).spool.pending.length = N →
    (∀ i, i * o.batchSize < N → (w.save (m + i)).save.succeeds = true) →
    (∀ x ∈ SegQueue.boundaries Segment.slots segs c, ¬ o.batchSize ∣ x) →
    ∃ n, (drain o w s n).running = false ∧ (drain o w s n).spool.pending = [] ∧
      (drain o w s n).posts.flatMap Posted.batch =
        (drain o w s m).posts.flatMap Posted.batch ++ (drain o w s m).spool.pending ∧
      (drain o w s n).sent = (drain o w s m).sent + N := by
  intro N
  induction N using Nat.strong_induction_on with
  | _ N ih =>
    intro m segs c h hN hsaves hfree
    obtain ⟨low, hclean⟩ := h.clean
    rcases eq_or_ne (drain o w s m).spool.pending [] with hnil | hne
    · -- nothing is left: the next turn ends the loop
      have hbatch : nextBatch o (drain o w s m).spool = [] := by
        rw [nextBatch_eq hclean, hnil, List.take_nil]
      refine ⟨m + 1, ?_⟩
      rw [drain, if_pos h.running, turn_of_stop (Or.inr hbatch), hnil, List.append_nil, ← hN, hnil]
      exact ⟨rfl, rfl, rfl, rfl⟩
    · have hpos : 0 < N := hN ▸ List.length_pos_iff.2 hne
      have hstalled : ¬ SegQueue.Stalled Segment.slots segs c := fun hst ↦
        hfree 0 ((SegQueue.zero_mem_boundaries _ hclean.whole.slots_ne_nil).2 hst) (dvd_zero _)
      obtain ⟨segs', c', hgoing, hshift, hpending, -, hsent, hposts⟩ :=
        h.advance (h.posts hb (hstop _) hne) (hok _ _) (hsaves 0 (by omega)) hstalled
          (hN ▸ rfl : min o.batchSize N = _)
      have hlen : (drain o w s (m + 1)).spool.pending.length = N - min o.batchSize N := by
        rw [hpending, List.length_drop, hN]
      obtain ⟨n, hended, hempty, hall, htotal⟩ := ih (N - min o.batchSize N) (by omega) hgoing hlen
        (fun i hi ↦ by
          rw [Nat.add_assoc, Nat.add_comm 1]
          refine hsaves (i + 1) ?_
          rw [Nat.add_mul]
          omega)
        (fun x hx hdvd ↦ by
          have hmem := (hshift x).1 hx
          have hlt := hclean.lt_of_mem_boundaries hmem
          rw [hN] at hlt
          rw [show min o.batchSize N = o.batchSize by omega] at hmem
          exact hfree _ hmem (dvd_add hdvd dvd_rfl))
      refine ⟨n, hended, hempty, ?_, by omega⟩
      rw [hall, hposts, hpending, List.append_assoc, List.take_append_drop]

/-- A drain that completes was never at the end of a rolled segment between two batches, and saved
its cursor every time. -/
theorem Going.of_completes {n total : ℕ} (hended : (drain o w s n).running = false)
    (hempty : (drain o w s n).spool.pending = []) (htotal : (drain o w s n).sent = total) :
    ∀ {N m : ℕ} {segs : List Segment} {c : ℕ}, Going o w s m history segs c →
    (drain o w s m).spool.pending.length = N → (drain o w s m).sent + N = total →
    (∀ i, i * o.batchSize < N → (w.save (m + i)).save.succeeds = true) ∧
      ∀ x ∈ SegQueue.boundaries Segment.slots segs c, ¬ o.batchSize ∣ x := by
  intro N
  induction N using Nat.strong_induction_on with
  | _ N ih =>
    intro m segs c h hN hsum
    obtain ⟨low, hclean⟩ := h.clean
    have hlt : ∀ x ∈ SegQueue.boundaries Segment.slots segs c, x < N := fun x hx ↦
      hN ▸ hclean.lt_of_mem_boundaries hx
    rcases Nat.eq_zero_or_pos N with rfl | hpos
    · exact ⟨fun i hi ↦ absurd hi (Nat.not_lt_zero _),
        fun x hx ↦ absurd (hlt x hx) (Nat.not_lt_zero _)⟩
    · have hne : (drain o w s m).spool.pending ≠ [] := List.length_pos_iff.1 (hN ▸ hpos)
      obtain ⟨j, rfl⟩ : ∃ j, n = m + (1 + j) := by
        obtain ⟨j, hj⟩ := Nat.exists_eq_add_of_lt (h.lt_of_ended hended)
        exact ⟨j, by omega⟩
      have hstalled : ¬ SegQueue.Stalled Segment.slots segs c := fun hst ↦
        (h.stuck hb hstop hok hst (1 + j)).1 hempty
      have hpost := h.posts hb (hstop _) hne
      have hsave : (w.save m).save.succeeds = true := by
        by_contra hfails
        obtain ⟨hdone, hsent, -⟩ :=
          h.unsaved hpost (hok _ _) (Bool.eq_false_of_not_eq_true hfails)
        rw [← Nat.add_assoc, drain_of_not_running hdone] at htotal
        omega
      obtain ⟨segs', c', hgoing, hshift, hpending, -, hsent, -⟩ :=
        h.advance hpost (hok _ _) hsave hstalled (hN ▸ rfl : min o.batchSize N = _)
      have hlen : (drain o w s (m + 1)).spool.pending.length = N - min o.batchSize N := by
        rw [hpending, List.length_drop, hN]
      obtain ⟨hsaves, hfree⟩ := ih (N - min o.batchSize N) (by omega) hgoing hlen (by omega)
      constructor
      · intro i hi
        rcases i with - | i
        · exact hsave
        · rw [Nat.add_comm i, ← Nat.add_assoc]
          refine hsaves i ?_
          rw [Nat.add_mul] at hi
          omega
      · intro x hx hdvd
        have hx0 : x ≠ 0 := by
          rintro rfl
          exact hstalled ((SegQueue.zero_mem_boundaries _ hclean.whole.slots_ne_nil).1 hx)
        have hge := Nat.le_of_dvd (Nat.pos_of_ne_zero hx0) hdvd
        have hmin : min o.batchSize N = o.batchSize := by
          have := hlt x hx
          omega
        refine hfree (x - o.batchSize) ((hshift _).2 ?_) (Nat.dvd_sub hdvd dvd_rfl)
        rwa [hmin, Nat.sub_add_cancel hge]

end Progress

/-- **When the drain completes.** With a transport that acknowledges every post and no stop
requested, the drain ends with an empty queue, having posted every record once and in order and
counted them, exactly when every cursor it has to save can be saved and no rolled segment ends a
whole number of batches behind the cursor. -/
theorem drain_completes_iff {s : Spool} (hs : s.Reachable) {o : DrainOptions}
    (hb : 1 ≤ o.batchSize) {w : World} (hstop : ∀ i, w.stopRequested i = false)
    (hok : ∀ i body, (w.post i body).ok = true) :
    (∃ n, (drain o w s n).running = false ∧ (drain o w s n).spool.pending = [] ∧
      (drain o w s n).posts.flatMap Posted.batch = s.pending ∧
      (drain o w s n).sent = s.pending.length) ↔
      (∀ i, i * o.batchSize < s.pending.length → (w.save i).save.succeeds = true) ∧
        ∀ id, s.Rolled id → ¬ o.batchSize ∣ s.pendingThrough id := by
  obtain ⟨-, history, low, segs, c, h⟩ := hs.clean
  have hgoing : Going o w s 0 history segs c := ⟨rfl, rfl, low, h⟩
  have hends : (∀ id, s.Rolled id → ¬ o.batchSize ∣ s.pendingThrough id) ↔
      ∀ x ∈ SegQueue.boundaries Segment.slots segs c, ¬ o.batchSize ∣ x := by
    simp only [h.mem_boundaries_iff]
    constructor
    · rintro hall x ⟨id, hid, rfl⟩
      exact hall id hid
    · exact fun hall id hid ↦ hall _ ⟨id, hid, rfl⟩
  rw [hends]
  constructor
  · rintro ⟨n, hended, hempty, -, hsent⟩
    have hcond := hgoing.of_completes hb hstop hok hended hempty hsent rfl (Nat.zero_add _)
    refine ⟨fun i hi ↦ ?_, hcond.2⟩
    have hi' := hcond.1 i hi
    rwa [Nat.zero_add] at hi'
  · rintro ⟨hsaves, hfree⟩
    obtain ⟨n, hended, hempty, hposts, hsent⟩ := hgoing.completes hb hstop hok rfl
      (fun i hi ↦ by rw [Nat.zero_add]; exact hsaves i hi) hfree
    exact ⟨n, hended, hempty, hposts, hsent.trans (Nat.zero_add _)⟩

/-- Two one-record segments and batches of two, in a world without failures. -/
theorem drain_completes_iff_batches_of_two : ∃ (s : Spool) (w : World),
    s.Reachable ∧ s.pending = [[1], [2]] ∧
    w = ⟨fun _ ↦ false, fun _ _ ↦ ⟨true, false⟩, fun _ ↦ ⟨[], .renamed⟩⟩ ∧
    ((∃ n, (drain ⟨2, 6⟩ w s n).running = false ∧ (drain ⟨2, 6⟩ w s n).spool.pending = [] ∧
        (drain ⟨2, 6⟩ w s n).posts.flatMap Posted.batch = s.pending ∧
        (drain ⟨2, 6⟩ w s n).sent = s.pending.length) ↔
      (∀ i, i * 2 < s.pending.length → (w.save i).save.succeeds = true) ∧
        ∀ id, s.Rolled id → ¬ 2 ∣ s.pendingThrough id) := by
  have hs := Spool.reachable_after ⟨1000, 1⟩
    [.append ⟨true, none, [], .renamed⟩ [1], .append ⟨true, none, [], .renamed⟩ [2]]
  exact ⟨_, _, hs, by decide +kernel, rfl,
    drain_completes_iff hs (by decide) (fun _ ↦ rfl) (fun _ _ ↦ rfl)⟩

/-- Two one-record segments and batches of one: after the first acknowledgement the cursor is at the
end of a rolled segment, and however long the loop runs it does not empty the queue. -/
theorem drain_never_completes_at_segment_end : ∃ s : Spool, s.Reachable ∧ s.pending = [[1], [2]] ∧
    ∀ w : World, (∀ i, w.stopRequested i = false) → (∀ i body, (w.post i body).ok = true) →
      ¬ ∃ n, (drain ⟨1, 6⟩ w s n).running = false ∧ (drain ⟨1, 6⟩ w s n).spool.pending = [] ∧
        (drain ⟨1, 6⟩ w s n).posts.flatMap Posted.batch = s.pending ∧
        (drain ⟨1, 6⟩ w s n).sent = s.pending.length := by
  have hs := Spool.reachable_after ⟨1000, 1⟩
    [.append ⟨true, none, [], .renamed⟩ [1], .append ⟨true, none, [], .renamed⟩ [2]]
  refine ⟨_, hs, by decide +kernel, ?_⟩
  rintro w hstop hok ⟨n, hended, hempty, -, hsent⟩
  obtain ⟨-, history, low, segs, c, h⟩ := hs.clean
  have hgoing : Going ⟨1, 6⟩ w _ 0 history segs c := ⟨rfl, rfl, low, h⟩
  have hcond := hgoing.of_completes (by decide) hstop hok hended hempty hsent rfl (Nat.zero_add _)
  refine hcond.2 1 (h.mem_boundaries_iff.2 ⟨1, ⟨?_, ?_, ?_, 2, ?_, ?_⟩, ?_⟩) dvd_rfl
  · decide +kernel
  · decide +kernel
  · decide +kernel
  · decide +kernel
  · decide
  · decide +kernel

end Reporter

end NanoSensor
