import Mathlib.Algebra.BigOperators.Ring.Finset
import Mathlib.Algebra.Order.BigOperators.Group.List
import NanoSensor.Report.Drain

/-!
# How long a drain may take

`run_scan` calls `on_inventory` inside its watchdog scope, and that drains the spool. A drain takes
the time of its posts, each of which ends within the timeout of the transport, and of the waits
between them, whose lengths `backoff_delay_ms` draws at random. A `Clock` has the time of every post
and every draw, so that `drainMs o w c s n` is the time after `n` turns.

Every post may take all of its timeout and every draw may be the largest there is. So a drain stays
within a given time for certain exactly if the number of its posts and of its waits says so
(`drainMs_lt_iff`). Which posts it makes and when it waits is decided by the outcomes of the posts,
the moment of stopping and the queue it starts with (`MakesPost`). The queue matters by its length,
and by the ends of its rolled segments: a drain that gets stuck at one of them has something to post
for ever.

With the default options six posts and five waits are enough to pass the 120 seconds after which the
watchdog takes a scan for hung, and that is what an outage comes to.
-/

namespace NanoSensor

open Bytes

/-! ### The delay -/

/-- The largest delay that `backoff_delay_ms` draws. -/
def backoffCeilingMs (attempt : ℤ) (baseMs : Int64 := 1000) (capMs : Int64 := 300000) : Int64 :=
  let attempt := if attempt < 0 then 0 else attempt
  let exponent := min attempt 20
  -- a shift that overflows is negative or zero
  let ceiling := baseMs <<< Int64.ofInt exponent
  if ceiling > capMs ∨ ceiling ≤ 0 then capMs else ceiling

/-- `backoff_delay_ms`, where `dist c` is what `std::uniform_int_distribution` draws from `[0, c]`.
-/
def backoffDelayMs (dist : ℕ → ℕ) (attempt : ℤ) (baseMs : Int64 := 1000)
    (capMs : Int64 := 300000) : ℕ :=
  dist (backoffCeilingMs attempt baseMs capMs).toNatClampNeg

/-- The ceiling doubles with every attempt, up to five minutes. -/
theorem backoffCeilingMs_eq (attempt : ℕ) :
    (backoffCeilingMs attempt).toNatClampNeg = min (1000 * 2 ^ attempt) 300000 := by
  have hsmall : ∀ k : Fin 21, (backoffCeilingMs (k : ℕ)).toNatClampNeg =
      min (1000 * 2 ^ (k : ℕ)) 300000 := by decide +kernel
  rcases Nat.lt_or_ge attempt 21 with hlt | hge
  · exact hsmall ⟨attempt, hlt⟩
  · -- from 20 on the exponent stays
    have hexponent : min (if (attempt : ℤ) < 0 then 0 else (attempt : ℤ)) 20 = 20 := by
      rw [if_neg (Int.natCast_nonneg attempt).not_gt]
      exact min_eq_right (by omega)
    have hcap : backoffCeilingMs attempt = 300000 := by
      simp only [backoffCeilingMs, hexponent]
      decide
    have hpow : 2 ^ 20 ≤ 2 ^ attempt := Nat.pow_le_pow_right (by decide) (by omega)
    rw [hcap, min_eq_right (by omega)]
    rfl

/-! ### The time of a drain -/

/-- How long each post takes, within the timeout of the transport, and what is drawn after it. -/
structure Clock (timeoutMs : ℕ) where
  postMs : ℕ → ℕ
  postMs_le : ∀ i, postMs i ≤ timeoutMs
  /-- What is drawn from `[0, ceiling]` after the `i`-th post. -/
  draw : ℕ → ℕ → ℕ
  draw_le : ∀ i ceiling, draw i ceiling ≤ ceiling

/-- Every post takes its timeout, and every draw is the largest. -/
def Clock.slowest (timeoutMs : ℕ) : Clock timeoutMs where
  postMs _ := timeoutMs
  postMs_le _ := le_rfl
  draw _ ceiling := ceiling
  draw_le _ _ := le_rfl

namespace Reporter

variable {timeoutMs : ℕ}

/-- The time of a turn of the loop, branch by branch as in `turn`. -/
def turnMs (o : DrainOptions) (w : World) (c : Clock timeoutMs) (d : Drain) : ℕ :=
  let i := d.posts.length
  if w.stopRequested i then 0
  else
    let batch := nextBatch o d.spool
    if batch = [] then 0
    else
      let result := w.post i (requestBody batch)
      if result.ok then c.postMs i
      else if !result.retryable then c.postMs i
      else
        let attempt := d.attempt + 1
        -- the wait counts in full, though a stop may cut it short
        if (attempt : ℤ) ≥ o.maxAttempts then c.postMs i
        else c.postMs i + backoffDelayMs (c.draw i) attempt

/-- The time `drain` has taken after `n` turns. -/
def drainMs (o : DrainOptions) (w : World) (c : Clock timeoutMs) (s : Spool) : ℕ → ℕ
  | 0 => 0
  | n + 1 =>
    drainMs o w c s n + if (drain o w s n).running then turnMs o w c (drain o w s n) else 0

/-- The attempt after which a turn waits, if it does. -/
def waitOf (o : DrainOptions) (w : World) (d : Drain) : List ℕ :=
  let result := w.post d.posts.length (requestBody (nextBatch o d.spool))
  if !w.stopRequested d.posts.length ∧ nextBatch o d.spool ≠ [] ∧ !result.ok ∧ result.retryable ∧
      ((d.attempt + 1 : ℕ) : ℤ) < o.maxAttempts then [d.attempt + 1]
  else []

/-- The attempts after which `drain` has waited, in its first `n` turns. -/
def waits (o : DrainOptions) (w : World) (s : Spool) : ℕ → List ℕ
  | 0 => []
  | n + 1 => waits o w s n ++ if (drain o w s n).running then waitOf o w (drain o w s n) else []

/-- A turn that posts, has one post more to show. -/
theorem Posts.length_posts {o : DrainOptions} {w : World} {d : Drain} {result : PostResult}
    (h : Posts o w d result) : (turn o w d).posts.length = d.posts.length + 1 := by
  rcases hok : result.ok with - | -
  · rw [(turn_of_failed h hok).2, List.length_append, List.length_singleton]
  · rcases eq_or_ne (commitBatch o w d).error none with hsave | hsave
    · rw [turn_of_ok h hok hsave, List.length_append, List.length_singleton]
    · rw [turn_of_unsaved h hok hsave, List.length_append, List.length_singleton]

/-- It waits if the post failed, may be repeated, and was not the last attempt. -/
theorem Posts.waitOf_eq {o : DrainOptions} {w : World} {d : Drain} {result : PostResult}
    (h : Posts o w d result) :
    waitOf o w d =
      if result.ok = false ∧ result.retryable = true ∧
          ((d.attempt + 1 : ℕ) : ℤ) < o.maxAttempts then [d.attempt + 1]
      else [] := by
  simp only [waitOf, h.go_on, h.result_eq, Bool.not_eq_true', ne_eq, h.batch_ne_nil,
    not_false_eq_true, true_and]

/-- A turn that waits leaves everything for the next one. -/
theorem Posts.turn_of_wait {o : DrainOptions} {w : World} {d : Drain}
    (h : Posts o w d ⟨false, true⟩) (hlast : ((d.attempt + 1 : ℕ) : ℤ) < o.maxAttempts) :
    turn o w d = { d with
      posts := d.posts ++ [⟨nextBatch o d.spool, ⟨false, true⟩⟩]
      attempt := d.attempt + 1 } := by
  rw [turn, h.go_on]
  simp only [Bool.false_eq_true, if_false, if_neg h.batch_ne_nil, h.result_eq, Bool.not_true]
  exact if_neg hlast.not_ge

/-- After its last attempt the drain gives up. -/
theorem Posts.turn_of_exhausted {o : DrainOptions} {w : World} {d : Drain}
    (h : Posts o w d ⟨false, true⟩) (hlast : ¬((d.attempt + 1 : ℕ) : ℤ) < o.maxAttempts) :
    (turn o w d).running = false := by
  rw [turn, h.go_on]
  simp only [Bool.false_eq_true, if_false, if_neg h.batch_ne_nil, h.result_eq, Bool.not_true]
  rw [if_pos (not_lt.1 hlast)]

/-- A turn that does not post does not wait. -/
theorem waitOf_of_stop {o : DrainOptions} {w : World} {d : Drain}
    (h : w.stopRequested d.posts.length = true ∨ nextBatch o d.spool = []) : waitOf o w d = [] := by
  rcases h with hstop | hnil
  · simp [waitOf, hstop]
  · simp [waitOf, hnil]

/-- **The time of a turn**: none, or that of one post and of the wait after it. -/
theorem turnMs_cases (timeoutMs : ℕ) (o : DrainOptions) (w : World) (d : Drain) :
    ((turn o w d).posts.length = d.posts.length ∧ waitOf o w d = [] ∧
      ∀ c : Clock timeoutMs, turnMs o w c d = 0) ∨
    ((turn o w d).posts.length = d.posts.length + 1 ∧
      ∀ c : Clock timeoutMs, turnMs o w c d = c.postMs d.posts.length +
        ((waitOf o w d).map fun k : ℕ ↦ backoffDelayMs (c.draw d.posts.length) k).sum) := by
  rcases stops_or_posts o w d with hstop | ⟨result, hpost⟩
  · refine Or.inl ⟨?_, waitOf_of_stop hstop, fun c ↦ ?_⟩
    · rw [turn_of_stop hstop]
    · rcases hstop with hstop | hnil
      · simp [turnMs, hstop]
      · simp [turnMs, hnil]
  · refine Or.inr ⟨hpost.length_posts, fun c ↦ ?_⟩
    rw [hpost.waitOf_eq]
    simp only [turnMs, hpost.go_on, hpost.result_eq, if_neg hpost.batch_ne_nil]
    rcases result with ⟨ok | ok, retryable | retryable⟩
    · simp
    · by_cases hlast : o.maxAttempts ≤ (d.attempt : ℤ) + 1
      · simp [hlast, hlast.not_gt]
      · simp [hlast, not_le.1 hlast]
    · simp
    · simp

/-! ### The time of a run -/

section Runs

variable {o : DrainOptions} {w : World} {s : Spool}

/-- The time the posts and the waits of a run can take. -/
def limitMs (timeoutMs : ℕ) (o : DrainOptions) (w : World) (s : Spool) (n : ℕ) : ℕ :=
  timeoutMs * (drain o w s n).posts.length +
    ((waits o w s n).map fun k ↦ min (1000 * 2 ^ k) 300000).sum

theorem backoffDelayMs_slowest (i k : ℕ) :
    backoffDelayMs ((Clock.slowest timeoutMs).draw i) k = min (1000 * 2 ^ k) 300000 :=
  backoffCeilingMs_eq k

/-- No turn takes longer than on the slowest clock. -/
theorem turnMs_le_slowest (c : Clock timeoutMs) (d : Drain) :
    turnMs o w c d ≤ turnMs o w (Clock.slowest timeoutMs) d := by
  rcases turnMs_cases timeoutMs o w d with ⟨-, -, hzero⟩ | ⟨-, hpost⟩
  · rw [hzero, hzero]
  · rw [hpost, hpost]
    refine Nat.add_le_add (c.postMs_le _) (List.sum_le_sum fun k _ ↦ ?_)
    exact c.draw_le _ _

/-- **No run takes longer.** -/
theorem drainMs_le_slowest (c : Clock timeoutMs) (n : ℕ) :
    drainMs o w c s n ≤ drainMs o w (Clock.slowest timeoutMs) s n := by
  induction n with
  | zero => exact le_rfl
  | succ n ih =>
    rw [drainMs, drainMs]
    split
    · exact Nat.add_le_add ih (turnMs_le_slowest c _)
    · exact ih

/-- On the slowest clock the time is that of the posts and the waits. -/
theorem drainMs_slowest (n : ℕ) :
    drainMs o w (Clock.slowest timeoutMs) s n = limitMs timeoutMs o w s n := by
  induction n with
  | zero => rfl
  | succ n ih =>
    rw [drainMs, ih, limitMs, limitMs, drain, waits]
    split
    · rcases turnMs_cases timeoutMs o w (drain o w s n) with
        ⟨hposts, hwait, hzero⟩ | ⟨hposts, hpost⟩
      · rw [hposts, hwait, hzero, List.append_nil, Nat.add_zero]
      · rw [hposts, hpost, List.map_append, List.sum_append, Nat.mul_succ]
        simp only [backoffDelayMs_slowest]
        show _ + (timeoutMs + _) = _
        omega
    · rw [List.append_nil, Nat.add_zero]

/-- **When a drain is certain to end in time.** -/
theorem drainMs_lt_iff (budgetMs : ℕ) :
    (∀ (c : Clock timeoutMs) (n : ℕ), drainMs o w c s n < budgetMs) ↔
      ∀ n, limitMs timeoutMs o w s n < budgetMs := by
  constructor
  · intro h n
    rw [← drainMs_slowest]
    exact h _ n
  · intro h c n
    refine (drainMs_le_slowest c n).trans_lt ?_
    rw [drainMs_slowest]
    exact h n

end Runs

/-! ### Where a drain stands -/

end Reporter

/-- The ends of the rolled segments, in records from the cursor on. -/
def Spool.rolledEnds (s : Spool) : Set ℕ :=
  {x | ∃ id, s.Rolled id ∧ x = s.pendingThrough id}

theorem Spool.Reachable.lt_of_mem_rolledEnds {s : Spool} (hs : s.Reachable) :
    ∀ x ∈ s.rolledEnds, x < s.pending.length := by
  obtain ⟨-, history, low, segs, c, h⟩ := hs.clean
  exact fun x hx ↦ h.lt_of_mem_boundaries (h.mem_boundaries_iff.2 hx)

namespace Reporter

/-- The queue of `s` is not empty after `a` acknowledged batches: it is longer, or the drain got
stuck at the end of a rolled segment on the way. -/
def Outlasts (o : DrainOptions) (s : Spool) (a : ℕ) : Prop :=
  a * o.batchSize < s.pending.length ∨
    ∃ x ∈ s.rolledEnds, o.batchSize ∣ x ∧ x < a * o.batchSize

/-- The drain of `s` is going after `m` turns and `a` acknowledged batches, and is that many batches
further on or got stuck before. -/
def Stands (o : DrainOptions) (w : World) (s : Spool) (m a : ℕ) : Prop :=
  ∃ history segs c, Going o w s m history segs c ∧
    (((drain o w s m).spool.pending = s.pending.drop (a * o.batchSize) ∧
        (∀ x, x ∈ SegQueue.boundaries Segment.slots segs c ↔
          x + a * o.batchSize ∈ s.rolledEnds) ∧
        ∀ x ∈ s.rolledEnds, o.batchSize ∣ x → a * o.batchSize ≤ x) ∨
      (SegQueue.Stalled Segment.slots segs c ∧
        ∃ x ∈ s.rolledEnds, o.batchSize ∣ x ∧ x < a * o.batchSize))

namespace Stands

variable {o : DrainOptions} {w : World} {s : Spool} {m a : ℕ}

theorem start (hs : s.Reachable) : Stands o w s 0 0 := by
  obtain ⟨-, history, low, segs, c, h⟩ := hs.clean
  refine ⟨history, segs, c, ⟨rfl, rfl, low, h⟩, Or.inl ⟨?_, fun x ↦ ?_, fun x _ _ ↦ ?_⟩⟩
  · rw [Nat.zero_mul, List.drop_zero]
    rfl
  · rw [Nat.zero_mul]
    exact h.mem_boundaries_iff
  · rw [Nat.zero_mul]
    exact Nat.zero_le x

theorem running (h : Stands o w s m a) : (drain o w s m).running = true := by
  obtain ⟨history, segs, c, hgoing, -⟩ := h
  exact hgoing.running

theorem pending_ne_nil_iff (h : Stands o w s m a) :
    (drain o w s m).spool.pending ≠ [] ↔ Outlasts o s a := by
  obtain ⟨history, segs, c, hgoing, ⟨hpending, -, hahead⟩ | ⟨hstalled, hpassed⟩⟩ := h
  · rw [hpending, Ne, List.drop_eq_nil_iff, not_le]
    refine ⟨Or.inl, ?_⟩
    rintro (hlt | ⟨x, hx, hdvd, hlt⟩)
    · exact hlt
    · exact absurd hlt (hahead x hx hdvd).not_gt
  · exact iff_of_true (hgoing.pending_ne_nil hstalled) (Or.inr hpassed)

/-- Whether the next turn posts. -/
theorem posts_iff (hb : 1 ≤ o.batchSize) (h : Stands o w s m a) :
    (∃ result, Posts o w (drain o w s m) result) ↔
      w.stopRequested m = false ∧ Outlasts o s a := by
  rw [← h.pending_ne_nil_iff]
  obtain ⟨history, segs, c, hgoing, -⟩ := h
  obtain ⟨low, hclean⟩ := hgoing.clean
  constructor
  · rintro ⟨result, hpost⟩
    refine ⟨hgoing.count ▸ hpost.go_on, fun hnil ↦ hpost.batch_ne_nil ?_⟩
    rw [nextBatch_eq hclean, hnil, List.take_nil]
  · rintro ⟨hstop, hne⟩
    exact ⟨_, hgoing.posts hb hstop hne⟩

/-- A batch that is to be posted again. -/
theorem failed (h : Stands o w s m a) (hpost : Posts o w (drain o w s m) ⟨false, true⟩)
    (hlast : (((drain o w s m).attempt + 1 : ℕ) : ℤ) < o.maxAttempts) :
    Stands o w s (m + 1) a ∧ (drain o w s (m + 1)).attempt = (drain o w s m).attempt + 1 := by
  have hturn : drain o w s (m + 1) = _ := (if_pos h.running).trans (hpost.turn_of_wait hlast)
  obtain ⟨history, segs, c, hgoing, hplace⟩ := h
  obtain ⟨low, hclean⟩ := hgoing.clean
  rw [Stands, hturn]
  refine ⟨⟨history, segs, c, ⟨?_, ?_, low, ?_⟩, hplace⟩, rfl⟩
  · rw [hturn]
    exact hgoing.running
  · rw [hturn, List.length_append, hgoing.count, List.length_singleton]
  · rw [hturn]
    exact hclean

section Acknowledged

variable {history : List Bytes} {segs : List Segment} {c : ℕ} {result : PostResult}

/-- At the end of a rolled segment nothing is released, and nothing ever will be. -/
theorem acknowledged_of_stalled (hgoing : Going o w s m history segs c)
    (hstalled : SegQueue.Stalled Segment.slots segs c)
    (hpassed : ∃ x ∈ s.rolledEnds, o.batchSize ∣ x ∧ x < (a + 1) * o.batchSize)
    (hpost : Posts o w (drain o w s m) result) (hok : result.ok = true)
    (hsave : (w.save m).save.succeeds = true) :
    Stands o w s (m + 1) (a + 1) ∧ (drain o w s (m + 1)).attempt = 0 := by
  obtain ⟨hgoing', -, hattempt, -⟩ := hgoing.saved hpost hok hsave rfl
  rw [SegQueue.release_of_stalled _ hstalled] at hgoing'
  exact ⟨⟨history, segs, c, hgoing', Or.inr ⟨hstalled, hpassed⟩⟩, hattempt⟩

/-- Anywhere else the drain is one batch further on. -/
theorem acknowledged_of_not_stalled (hs : s.Reachable) (hgoing : Going o w s m history segs c)
    (hstalled : ¬ SegQueue.Stalled Segment.slots segs c)
    (hpending : (drain o w s m).spool.pending = s.pending.drop (a * o.batchSize))
    (hends : ∀ x, x ∈ SegQueue.boundaries Segment.slots segs c ↔
      x + a * o.batchSize ∈ s.rolledEnds)
    (hahead : ∀ x ∈ s.rolledEnds, o.batchSize ∣ x → (a + 1) * o.batchSize ≤ x)
    (hmore : a * o.batchSize < s.pending.length)
    (hpost : Posts o w (drain o w s m) result) (hok : result.ok = true)
    (hsave : (w.save m).save.succeeds = true) :
    Stands o w s (m + 1) (a + 1) ∧ (drain o w s (m + 1)).attempt = 0 := by
  have hnext : (a + 1) * o.batchSize = a * o.batchSize + o.batchSize := Nat.succ_mul _ _
  obtain ⟨segs', c', hgoing', hshift, hpending', hattempt, -⟩ :=
    hgoing.advance hpost hok hsave hstalled rfl
  have hlen : (drain o w s m).spool.pending.length = s.pending.length - a * o.batchSize := by
    rw [hpending, List.length_drop]
  refine ⟨⟨history, segs', c', hgoing', Or.inl ⟨?_, fun x ↦ ?_, hahead⟩⟩, hattempt⟩
  · rw [hpending', hpending, List.drop_drop, hnext, ← hpending, hlen]
    rcases Nat.le_total o.batchSize (s.pending.length - a * o.batchSize) with hle | hle
    · rw [Nat.min_eq_left hle]
    · rw [List.drop_eq_nil_of_le (by omega), List.drop_eq_nil_of_le (by omega)]
  · rw [hshift, hends, hlen, hnext]
    rcases Nat.le_total o.batchSize (s.pending.length - a * o.batchSize) with hle | hle
    · rw [Nat.min_eq_left hle, Nat.add_assoc, Nat.add_comm o.batchSize]
    · -- behind the last record there is no end
      refine iff_of_false (fun hx ↦ ?_) fun hx ↦ ?_
      · have := hs.lt_of_mem_rolledEnds _ hx
        omega
      · have := hs.lt_of_mem_rolledEnds _ hx
        omega

/-- **A batch that was acknowledged.** -/
theorem acknowledged (hs : s.Reachable) (h : Stands o w s m a)
    (hpost : Posts o w (drain o w s m) result) (hok : result.ok = true)
    (hsave : (w.save m).save.succeeds = true) (hb : 1 ≤ o.batchSize) :
    Stands o w s (m + 1) (a + 1) ∧ (drain o w s (m + 1)).attempt = 0 := by
  have hnext : (a + 1) * o.batchSize = a * o.batchSize + o.batchSize := Nat.succ_mul _ _
  have hposts := ((h.posts_iff hb).1 ⟨result, hpost⟩).2
  obtain ⟨history, segs, c, hgoing, hplace⟩ := h
  obtain ⟨low, hclean⟩ := hgoing.clean
  have hzero := SegQueue.zero_mem_boundaries (c := c) Segment.slots hclean.whole.slots_ne_nil
  by_cases hstalled : SegQueue.Stalled Segment.slots segs c
  · refine acknowledged_of_stalled hgoing hstalled ?_ hpost hok hsave
    rcases hplace with ⟨-, hends, -⟩ | ⟨-, x, hx, hdvd, hlt⟩
    · refine ⟨a * o.batchSize, ?_, dvd_mul_left _ _, by omega⟩
      rw [← Nat.zero_add (a * o.batchSize)]
      exact (hends 0).1 (hzero.2 hstalled)
    · exact ⟨x, hx, hdvd, by omega⟩
  · obtain ⟨hpending, hends, hahead⟩ := hplace.resolve_right fun hstuck ↦ hstalled hstuck.1
    refine acknowledged_of_not_stalled hs hgoing hstalled hpending hends (fun x hx hdvd ↦ ?_) ?_
      hpost hok hsave
    · have hne : x ≠ a * o.batchSize := by
        rintro rfl
        refine hstalled (hzero.1 ((hends 0).2 ?_))
        rwa [Nat.zero_add]
      have hlt := lt_of_le_of_ne (hahead x hx hdvd) hne.symm
      obtain ⟨q, rfl⟩ := hdvd
      rw [Nat.mul_comm] at hlt ⊢
      exact Nat.mul_le_mul_left _ (Nat.lt_of_mul_lt_mul_left hlt)
    · rcases hposts with hlt | ⟨x, hx, hdvd, hlt⟩
      · exact hlt
      · exact absurd hlt (hahead x hx hdvd).not_gt

end Acknowledged

end Stands

/-! ### The outcomes -/

/-- A world in which the `i`-th post brings back `r i`, whatever is posted. -/
def outcomes (stop : ℕ → Bool) (r : ℕ → PostResult) (save : ℕ → CommitIo) : World :=
  ⟨stop, fun i _ ↦ r i, save⟩

/-- How many of the first `i` posts were acknowledged. -/
def acks (r : ℕ → PostResult) : ℕ → ℕ
  | 0 => 0
  | i + 1 => if (r i).ok then acks r i + 1 else acks r i

/-- How many posts in a row have failed before the `i`-th. -/
def failures (r : ℕ → PostResult) : ℕ → ℕ
  | 0 => 0
  | i + 1 => if (r i).ok then 0 else failures r i + 1

/-- The `i`-th post failed and is to be repeated after a wait. -/
def Repeats (o : DrainOptions) (r : ℕ → PostResult) (i : ℕ) : Prop :=
  r i = ⟨false, true⟩ ∧ ((failures r i + 1 : ℕ) : ℤ) < o.maxAttempts

instance (o : DrainOptions) (r : ℕ → PostResult) (i : ℕ) : Decidable (Repeats o r i) :=
  inferInstanceAs (Decidable (_ ∧ _))

/-- **The `n`-th post is made**: no stop was requested up to it, the queue outlasted the batches
acknowledged before it, and every post before it was acknowledged and the cursor saved, or is
repeated. -/
structure MakesPost (o : DrainOptions) (s : Spool) (stop : ℕ → Bool) (r : ℕ → PostResult)
    (save : ℕ → CommitIo) (n : ℕ) : Prop where
  go_on : ∀ i ≤ n, stop i = false
  outlasts : ∀ i ≤ n, Outlasts o s (acks r i)
  before : ∀ i < n, ((r i).ok = true ∧ (save i).save.succeeds = true) ∨ Repeats o r i

/-- The longest wait after the `i`-th post. -/
def waitMs (o : DrainOptions) (r : ℕ → PostResult) (i : ℕ) : ℕ :=
  if Repeats o r i then min (1000 * 2 ^ (failures r i + 1)) 300000 else 0

section Outcomes

variable {o : DrainOptions} {s : Spool} {stop : ℕ → Bool} {r : ℕ → PostResult}
  {save : ℕ → CommitIo} {n : ℕ}

/-- The drain stands before its `n`-th post, if there is one. -/
structure Before (o : DrainOptions) (s : Spool) (stop : ℕ → Bool) (r : ℕ → PostResult)
    (save : ℕ → CommitIo) (n : ℕ) : Prop where
  stands : Stands o (outcomes stop r save) s n (acks r n)
  attempt : (drain o (outcomes stop r save) s n).attempt = failures r n

theorem Before.posts_iff (hb : 1 ≤ o.batchSize) (h : Before o s stop r save n) :
    Posts o (outcomes stop r save) (drain o (outcomes stop r save) s n) (r n) ↔
      stop n = false ∧ Outlasts o s (acks r n) := by
  obtain ⟨history, segs, c, hgoing, -⟩ := h.stands
  refine Iff.trans ⟨fun hpost ↦ ⟨_, hpost⟩, ?_⟩ (h.stands.posts_iff hb)
  rintro ⟨result, hpost⟩
  refine ⟨hpost.go_on, hpost.batch_ne_nil, ?_⟩
  show r (drain o (outcomes stop r save) s n).posts.length = r n
  rw [hgoing.count]

/-- The time of a turn that posts. -/
theorem Before.limitMs_succ (h : Before o s stop r save n)
    (hpost : Posts o (outcomes stop r save) (drain o (outcomes stop r save) s n) (r n)) :
    limitMs timeoutMs o (outcomes stop r save) s (n + 1) =
      limitMs timeoutMs o (outcomes stop r save) s n + (timeoutMs + waitMs o r n) := by
  have hwait : ((waitOf o (outcomes stop r save) (drain o (outcomes stop r save) s n)).map
      fun k ↦ min (1000 * 2 ^ k) 300000).sum = waitMs o r n := by
    rw [hpost.waitOf_eq, waitMs, h.attempt]
    rcases hr : r n with ⟨ok | ok, retryable | retryable⟩ <;> simp only [Repeats, hr]
    · simp
    · split <;> simp_all
    · simp
    · simp
  rw [limitMs, limitMs, drain, waits, if_pos h.stands.running, if_pos h.stands.running,
    hpost.length_posts, List.map_append, List.sum_append, hwait, Nat.mul_succ]
  omega

/-- **A post after which the drain goes on.** -/
theorem Before.next (hs : s.Reachable) (hb : 1 ≤ o.batchSize) (h : Before o s stop r save n)
    (hpost : Posts o (outcomes stop r save) (drain o (outcomes stop r save) s n) (r n))
    (hgo : ((r n).ok = true ∧ (save n).save.succeeds = true) ∨ Repeats o r n) :
    Before o s stop r save (n + 1) := by
  rcases hgo with ⟨hok, hsave⟩ | ⟨hr, hlast⟩
  · obtain ⟨hstands, hattempt⟩ := h.stands.acknowledged hs hpost hok hsave hb
    refine ⟨?_, ?_⟩
    · rw [acks, if_pos hok]
      exact hstands
    · rw [failures, if_pos hok, hattempt]
  · rw [hr] at hpost
    obtain ⟨hstands, hattempt⟩ := h.stands.failed hpost (by rw [h.attempt]; exact hlast)
    refine ⟨?_, ?_⟩
    · rw [acks, hr]
      exact hstands
    · rw [failures, hr, hattempt, h.attempt]
      rfl

/-- A post after which it does not. -/
theorem Before.last (h : Before o s stop r save n)
    (hpost : Posts o (outcomes stop r save) (drain o (outcomes stop r save) s n) (r n))
    (hend : ¬(((r n).ok = true ∧ (save n).save.succeeds = true) ∨ Repeats o r n)) :
    (drain o (outcomes stop r save) s (n + 1)).running = false := by
  obtain ⟨history, segs, c, hgoing, -⟩ := h.stands
  obtain ⟨hunsaved, hfinal⟩ := not_or.1 hend
  rw [drain, if_pos hgoing.running]
  rcases hr : r n with ⟨ok | ok, retryable | retryable⟩
  · rw [hr] at hpost
    rw [turn_of_permanent hpost rfl rfl]
  · rw [hr] at hpost
    exact hpost.turn_of_exhausted fun hlast ↦ hfinal ⟨hr, by rwa [← h.attempt]⟩
  all_goals
    have hok : (r n).ok = true := by rw [hr]
    have hsave : (save n).save.succeeds = false :=
      Bool.eq_false_of_not_eq_true fun hsaved ↦ hunsaved ⟨hok, hsaved⟩
    have hended := (hgoing.unsaved hpost hok hsave).1
    rwa [drain, if_pos hgoing.running] at hended

/-- The time of the posts up to the `n`-th and of the waits after them. -/
def totalMs (timeoutMs : ℕ) (o : DrainOptions) (r : ℕ → PostResult) (n : ℕ) : ℕ :=
  timeoutMs * n + ∑ i ∈ Finset.range n, waitMs o r i

/-- **A post that is made** takes its time. -/
theorem MakesPost.spec (hs : s.Reachable) (hb : 1 ≤ o.batchSize) :
    ∀ {n : ℕ}, MakesPost o s stop r save n →
      Before o s stop r save n ∧
        limitMs timeoutMs o (outcomes stop r save) s (n + 1) = totalMs timeoutMs o r (n + 1) := by
  have hstep : ∀ {n : ℕ}, Before o s stop r save n → MakesPost o s stop r save n →
      limitMs timeoutMs o (outcomes stop r save) s n = totalMs timeoutMs o r n →
      limitMs timeoutMs o (outcomes stop r save) s (n + 1) = totalMs timeoutMs o r (n + 1) := by
    intro n hbefore h hlimit
    have hpost := (hbefore.posts_iff hb).2 ⟨h.go_on n le_rfl, h.outlasts n le_rfl⟩
    rw [hbefore.limitMs_succ hpost, hlimit, totalMs, totalMs, Finset.sum_range_succ, Nat.mul_succ]
    omega
  intro n
  induction n with
  | zero =>
    intro h
    have hbefore : Before o s stop r save 0 := ⟨Stands.start hs, rfl⟩
    exact ⟨hbefore, hstep hbefore h rfl⟩
  | succ n ih =>
    intro h
    have h' : MakesPost o s stop r save n :=
      ⟨fun i hi ↦ h.go_on i (Nat.le_succ_of_le hi), fun i hi ↦ h.outlasts i (Nat.le_succ_of_le hi),
        fun i hi ↦ h.before i (Nat.lt_succ_of_lt hi)⟩
    obtain ⟨hbefore, hlimit⟩ := ih h'
    have hpost := (hbefore.posts_iff hb).2 ⟨h'.go_on n le_rfl, h'.outlasts n le_rfl⟩
    have hnext := hbefore.next hs hb hpost (h.before n (Nat.lt_succ_self n))
    exact ⟨hnext, hstep hnext h hlimit⟩

/-- A turn that does not post takes no time. -/
theorem limitMs_of_stop (timeoutMs : ℕ) {w : World}
    (h : (drain o w s n).running = true → ¬∃ result, Posts o w (drain o w s n) result) :
    limitMs timeoutMs o w s (n + 1) = limitMs timeoutMs o w s n ∧
      (drain o w s (n + 1)).running = false := by
  rw [limitMs, limitMs, drain, waits]
  split
  · next hrun =>
    have hstop := (stops_or_posts o w (drain o w s n)).resolve_right (h hrun)
    rw [turn_of_stop hstop, waitOf_of_stop hstop, List.append_nil]
    exact ⟨rfl, rfl⟩
  · next hrun =>
    rw [List.append_nil]
    exact ⟨rfl, Bool.eq_false_of_not_eq_true hrun⟩

/-- **Every run takes the time of some post that is made**, or none. -/
theorem limitMs_cases (timeoutMs : ℕ) (hs : s.Reachable) (hb : 1 ≤ o.batchSize) (stop : ℕ → Bool)
    (r : ℕ → PostResult) (save : ℕ → CommitIo) (n : ℕ) :
    (limitMs timeoutMs o (outcomes stop r save) s n = 0 ∨
      ∃ p, MakesPost o s stop r save p ∧
        limitMs timeoutMs o (outcomes stop r save) s n = totalMs timeoutMs o r (p + 1)) ∧
    ((drain o (outcomes stop r save) s n).running = true →
      Before o s stop r save n ∧ ∀ i < n, MakesPost o s stop r save i ∧
        (((r i).ok = true ∧ (save i).save.succeeds = true) ∨ Repeats o r i)) := by
  induction n with
  | zero => exact ⟨Or.inl rfl, fun _ ↦ ⟨⟨Stands.start hs, rfl⟩, by simp⟩⟩
  | succ n ih =>
    obtain ⟨htime, hgoing⟩ := ih
    by_cases hposts : (drain o (outcomes stop r save) s n).running = true →
        ¬∃ result, Posts o (outcomes stop r save) (drain o (outcomes stop r save) s n) result
    · obtain ⟨hsame, hended⟩ := limitMs_of_stop timeoutMs hposts
      rw [hsame, hended]
      exact ⟨htime, fun h ↦ by cases h⟩
    · obtain ⟨hrun, hposts⟩ := Classical.not_imp.1 hposts
      obtain ⟨hbefore, hmade⟩ := hgoing hrun
      have hyes := (hbefore.stands.posts_iff hb).1 (not_not.1 hposts)
      have hpost := (hbefore.posts_iff hb).2 hyes
      have hmakes : MakesPost o s stop r save n := by
        refine ⟨fun i hi ↦ ?_, fun i hi ↦ ?_, fun i hi ↦ (hmade i hi).2⟩
        · rcases hi.eq_or_lt with rfl | hlt
          · exact hyes.1
          · exact (hmade i hlt).1.go_on i le_rfl
        · rcases hi.eq_or_lt with rfl | hlt
          · exact hyes.2
          · exact (hmade i hlt).1.outlasts i le_rfl
      refine ⟨Or.inr ⟨n, hmakes, (hmakes.spec hs hb).2⟩, fun hrun' ↦ ?_⟩
      have hgo : ((r n).ok = true ∧ (save n).save.succeeds = true) ∨ Repeats o r n := by
        by_contra hend
        rw [hbefore.last hpost hend] at hrun'
        cases hrun'
      refine ⟨hbefore.next hs hb hpost hgo, fun i hi ↦ ?_⟩
      rcases (Nat.lt_succ_iff.1 hi).eq_or_lt with rfl | hlt
      · exact ⟨hmakes, hgo⟩
      · exact hmade i hlt

/-- **When a drain is certain to end in time**, by the outcomes and the queue. -/
theorem drainMs_outcomes_lt_iff (hs : s.Reachable) (hb : 1 ≤ o.batchSize) {budgetMs : ℕ}
    (hbudget : 0 < budgetMs) :
    (∀ (c : Clock timeoutMs) (n : ℕ), drainMs o (outcomes stop r save) c s n < budgetMs) ↔
      ∀ n, MakesPost o s stop r save n → totalMs timeoutMs o r (n + 1) < budgetMs := by
  rw [drainMs_lt_iff]
  constructor
  · intro h n hmakes
    rw [← (hmakes.spec hs hb).2]
    exact h (n + 1)
  · intro h n
    obtain ⟨hzero | ⟨p, hmakes, heq⟩, -⟩ := limitMs_cases timeoutMs hs hb stop r save n
    · rwa [hzero]
    · rw [heq]
      exact h p hmakes

end Outcomes

/-! ### The defaults -/

/-- The defaults of `batch_size` and `max_attempts` in `Options`. -/
def defaultOptions : DrainOptions :=
  ⟨32, 6⟩

/-- The default of `Transport::Config::timeout_ms`. -/
def defaultTimeoutMs : ℕ :=
  15000

/-- The default of `hang_timeout_s` in `Options`. -/
def defaultHangTimeoutS : ℕ :=
  120

/-- How many seconds a drain with the default options waits after the `i`-th post, at most. -/
def waitS (r : ℕ → PostResult) (i : ℕ) : ℕ :=
  if Repeats defaultOptions r i then 2 ^ (failures r i + 1) else 0

/-- With six attempts the wait is at most 32 seconds, below the cap. -/
theorem waitMs_defaultOptions (r : ℕ → PostResult) (i : ℕ) :
    waitMs defaultOptions r i = 1000 * waitS r i := by
  rw [waitMs, waitS]
  split
  · next h =>
    have hlt : ((failures r i + 1 : ℕ) : ℤ) < 6 := h.2
    have hpow : 2 ^ (failures r i + 1) ≤ 2 ^ 5 := Nat.pow_le_pow_right (by decide) (by omega)
    exact min_eq_left (by omega)
  · rfl

/-- **When a drain is certain not to look like a hang**: for every post that the outcomes, the stop
and the queue let it make, 15 seconds for each post so far and `2 ^ k` for the wait after the `k`-th
failure in a row come to less than the 120 seconds of the watchdog. -/
theorem drain_within_hang_timeout_iff {s : Spool} (hs : s.Reachable) (stop : ℕ → Bool)
    (r : ℕ → PostResult) (save : ℕ → CommitIo) :
    (∀ (c : Clock defaultTimeoutMs) (n : ℕ),
      drainMs defaultOptions (outcomes stop r save) c s n < defaultHangTimeoutS * 1000) ↔
    ∀ n, MakesPost defaultOptions s stop r save n →
      15 * (n + 1) + ∑ i ∈ Finset.range (n + 1), waitS r i < 120 := by
  rw [drainMs_outcomes_lt_iff hs (by decide) (by decide)]
  refine forall_congr' fun n ↦ imp_congr_right fun _ ↦ ?_
  have htotal : totalMs defaultTimeoutMs defaultOptions r (n + 1) =
      (15 * (n + 1) + ∑ i ∈ Finset.range (n + 1), waitS r i) * 1000 := by
    simp only [totalMs, waitMs_defaultOptions, ← Finset.mul_sum, defaultTimeoutMs]
    omega
  rw [htotal, defaultHangTimeoutS]
  exact Nat.mul_lt_mul_right (by decide)

/-- Two records, and a network that is back at the third post: 45 seconds for the posts and 6 for
the waits. -/
theorem drain_within_hang_timeout_recovery : ∃ (s : Spool) (stop : ℕ → Bool) (r : ℕ → PostResult)
    (save : ℕ → CommitIo), s.Reachable ∧ s.pending = [[1], [2]] ∧ r 0 = ⟨false, true⟩ ∧
    ∀ (c : Clock defaultTimeoutMs) (n : ℕ),
      drainMs defaultOptions (outcomes stop r save) c s n < defaultHangTimeoutS * 1000 := by
  have hs := Spool.reachable_after ⟨1000, 100⟩
    [.append ⟨true, none, [], .renamed⟩ [1], .append ⟨true, none, [], .renamed⟩ [2]]
  refine ⟨_, fun _ ↦ false, fun i ↦ ⟨2 ≤ i, true⟩, fun _ ↦ ⟨[], .renamed⟩, hs, by decide +kernel,
    rfl, (drain_within_hang_timeout_iff hs _ _ _).2 fun n hmakes ↦ ?_⟩
  have hn : n ≤ 2 := by
    by_contra hn
    rcases hmakes.outlasts 3 (by omega) with hlt | ⟨x, ⟨id, ⟨hid, -, -, later, hlater, hlt⟩, -⟩, -⟩
    · exact absurd hlt (by decide +kernel)
    · have hsegs : (Spool.after ⟨1000, 100⟩ [.append ⟨true, none, [], .renamed⟩ [1],
          .append ⟨true, none, [], .renamed⟩ [2]]).segments = [1] := by decide +kernel
      rw [hsegs, List.mem_singleton] at hid hlater
      omega
  interval_cases n <;> decide

/-- An outage with one record pending may take 152 seconds. -/
theorem drain_outage_past_hang_timeout : ∃ s : Spool, s.Reachable ∧ s.pending = [[1]] ∧
    ¬ ∀ (c : Clock defaultTimeoutMs) (n : ℕ),
      drainMs defaultOptions
        (outcomes (fun _ ↦ false) (fun _ ↦ ⟨false, true⟩) fun _ ↦ ⟨[], .renamed⟩) c s n <
          defaultHangTimeoutS * 1000 := by
  have hs := Spool.reachable_after ⟨1000, 100⟩ [.append ⟨true, none, [], .renamed⟩ [1]]
  refine ⟨_, hs, by decide +kernel, fun h ↦ ?_⟩
  exact absurd ((drainMs_lt_iff _).1 h 6) (by decide +kernel)

end Reporter

end NanoSensor
