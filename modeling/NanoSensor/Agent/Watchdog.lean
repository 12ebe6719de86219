import NanoSensor.Foundation.Bytes
import NanoSensor.Foundation.Machine

/-!
# The watchdog

`class Watchdog` of `src/agent.cpp`: whatever may block is done inside a `Scope`, which is entered
in a map when it is made and erased when it is destroyed. A thread looks at the map twice a second
and ends the process, with a dump, when a scope is older than the timeout.

The map and the thread are under one mutex, so a step of the machine is what is done under it; time
passes between the steps. `Clock::now()` counts nanoseconds. Two things are left to the machine's
surroundings: a wait for a condition may end at any time, and the thread gets the processor and the
mutex no later than `late` after its wait is over. That is the only thing assumed about time.

`wake_reports_iff` says what the loop over the map comes to: ids and times of entry grow together,
so that it is the first scope of the map that decides, and no scope is older than the one that is
reported. `stuck_scope_is_reported` is what the watchdog is for: a scope that is never left is
noticed within the timeout, half a second and `late`, whatever the other threads do meanwhile.

The counter of the ids has 64 bits in the source and is a natural number here.
-/

namespace NanoSensor.Watchdog

/-- `milliseconds(n)`. -/
def milliseconds (n : ℕ) : ℕ :=
  n * 1000000

/-- `std::chrono::seconds(n)`. -/
def seconds (n : ℕ) : ℕ :=
  n * 1000000000

/-- `struct Entry`, with its key. -/
structure Scope where
  id : ℕ
  what : Bytes
  since : ℕ
  deriving DecidableEq

/-- Where the thread of the watchdog is. -/
inductive Thread
  /-- `start` returned without making one. -/
  | none
  /-- In `cv_.wait_for`, which is over at `deadline`. -/
  | waiting (deadline : ℕ)
  /-- In `on_hang`, for a scope it found stuck at `now`. -/
  | hung (stuck : Scope) (now : ℕ)
  | exited
  deriving DecidableEq

structure State where
  clock : ℕ
  stopping : Bool
  next : ℕ
  /-- `active_`, in the order of the keys. -/
  active : List Scope
  timeout : ℕ
  thread : Thread
  deriving DecidableEq

/-- What can happen. -/
inductive Action
  | enter (what : Bytes)
  | leave (id : ℕ)
  /-- A wait of the thread ends. -/
  | wake
  | stop
  /-- Time passes. -/
  | pass (time : ℕ)
  deriving DecidableEq

/-- `std::map::emplace`. -/
def emplace (e : Scope) : List Scope → List Scope
  | [] => [e]
  | e' :: rest =>
    if e.id < e'.id then e :: e' :: rest
    else if e.id = e'.id then e' :: rest
    else e' :: emplace e rest

/-- The loop over `active_`. -/
def overdue (now timeout : ℕ) (active : List Scope) : Option Scope :=
  active.find? fun e ↦ ¬ now - e.since < timeout

/-- What is done under the mutex, or the passing of time. -/
def step (late : ℕ) (s : State) : Action → Option State
  | .enter what =>
    some { s with
      next := s.next + 1
      active := emplace ⟨s.next + 1, what, s.clock⟩ s.active }
  | .leave id => some { s with active := s.active.filter fun e ↦ e.id ≠ id }
  | .wake =>
    match s.thread with
    | .waiting _ =>
      match overdue s.clock s.timeout s.active with
      | some stuck => some { s with thread := .hung stuck s.clock }
      | none =>
        -- back to `while (!stopping_)`
        if s.stopping then some { s with thread := .exited }
        else some { s with thread := .waiting (s.clock + milliseconds 500) }
    | _ => none
  | .stop => some { s with stopping := true }
  | .pass time =>
    match s.thread with
    | .waiting deadline =>
      if s.clock + time ≤ deadline + late then some { s with clock := s.clock + time } else none
    | _ => some { s with clock := s.clock + time }

/-- After `Watchdog::start`, at the time `now`. -/
def start (now : ℕ) (timeoutS : ℤ) : State where
  clock := now
  stopping := false
  next := 0
  active := []
  timeout := seconds timeoutS.toNat
  thread := if timeoutS ≤ 0 then .none else .waiting (now + milliseconds 500)

/-! ### The map -/

theorem emplace_of_lt {e : Scope} {active : List Scope} (h : ∀ e' ∈ active, e'.id < e.id) :
    emplace e active = active ++ [e] := by
  induction active with
  | nil => rfl
  | cons e' rest ih =>
    rw [List.forall_mem_cons] at h
    rw [emplace, if_neg h.1.not_gt, if_neg h.1.ne', ih h.2, List.cons_append]

/-- **The loop stops at the first scope or not at all**, if times of entry grow along the map. -/
theorem overdue_eq_some_iff {now timeout : ℕ} {active : List Scope} {stuck : Scope}
    (h : active.Pairwise fun e e' ↦ e.since ≤ e'.since) :
    overdue now timeout active = some stuck ↔
      active.head? = some stuck ∧ timeout ≤ now - stuck.since := by
  cases active with
  | nil => simp [overdue]
  | cons e rest =>
    rw [overdue, List.find?_cons, List.head?_cons]
    by_cases hage : now - e.since < timeout
    · -- the others are younger still
      have hrest : rest.find? (fun e ↦ ¬ now - e.since < timeout) = none := by
        refine List.find?_eq_none.2 fun e' he' ↦ ?_
        have hle := List.rel_of_pairwise_cons h he'
        simp only [decide_eq_true_eq, not_not]
        omega
      simp only [hage, not_true_eq_false, decide_false, hrest, reduceCtorEq, false_iff]
      rintro ⟨heq, hle⟩
      obtain rfl := Option.some.inj heq
      omega
    · simp only [hage, not_false_eq_true, decide_true, Option.some.injEq]
      refine ⟨?_, fun hboth ↦ hboth.1⟩
      rintro rfl
      exact ⟨rfl, not_lt.1 hage⟩

/-! ### What every step keeps -/

/-- The map is in order, and the thread has looked at it lately. -/
structure Inv (late : ℕ) (s : State) : Prop where
  ids : ∀ e ∈ s.active, e.id ≤ s.next
  since : s.active.Pairwise fun e e' ↦ e.since ≤ e'.since
  past : ∀ e ∈ s.active, e.since ≤ s.clock
  guarded : ∀ deadline, s.thread = .waiting deadline →
    0 < s.timeout ∧ deadline ≤ s.clock + milliseconds 500 ∧ s.clock ≤ deadline + late ∧
      ∀ e ∈ s.active, deadline < e.since + s.timeout + milliseconds 500

theorem inv_start (late now : ℕ) (timeoutS : ℤ) : Inv late (start now timeoutS) where
  ids := List.forall_mem_nil _
  since := List.Pairwise.nil
  past := List.forall_mem_nil _
  guarded := by
    intro deadline hwait
    rw [start] at hwait
    split at hwait
    · cases hwait
    · next hpos =>
      obtain rfl := Thread.waiting.inj hwait
      refine ⟨?_, le_refl _, ?_, List.forall_mem_nil _⟩
      · show 0 < timeoutS.toNat * 1000000000
        omega
      · show now ≤ now + milliseconds 500 + late
        omega

section Steps

variable {late : ℕ} {s s' : State}

theorem active_enter (h : Inv late s) (what : Bytes) :
    emplace ⟨s.next + 1, what, s.clock⟩ s.active = s.active ++ [⟨s.next + 1, what, s.clock⟩] :=
  emplace_of_lt fun e he ↦ Nat.lt_succ_of_le (h.ids e he)

theorem Inv.enter (h : Inv late s) (what : Bytes) :
    Inv late { s with
      next := s.next + 1
      active := emplace ⟨s.next + 1, what, s.clock⟩ s.active } := by
  rw [active_enter h]
  refine ⟨?_, ?_, ?_, ?_⟩
  · refine List.forall_mem_append.2 ⟨fun e he ↦ Nat.le_succ_of_le (h.ids e he), ?_⟩
    exact List.forall_mem_singleton.2 (le_refl _)
  · refine List.pairwise_append.2 ⟨h.since, List.pairwise_singleton _ _, fun e he e' he' ↦ ?_⟩
    rw [List.mem_singleton.1 he']
    exact h.past e he
  · exact List.forall_mem_append.2 ⟨h.past, List.forall_mem_singleton.2 (le_refl _)⟩
  · intro deadline hwait
    obtain ⟨hpos, hsoon, hlate, hyoung⟩ := h.guarded deadline hwait
    refine ⟨hpos, hsoon, hlate, List.forall_mem_append.2 ⟨hyoung, ?_⟩⟩
    refine List.forall_mem_singleton.2 ?_
    show deadline < s.clock + s.timeout + milliseconds 500
    omega

theorem Inv.leave (h : Inv late s) (id : ℕ) :
    Inv late { s with active := s.active.filter fun e ↦ e.id ≠ id } where
  ids e he := h.ids e (List.mem_of_mem_filter he)
  since := h.since.filter _
  past e he := h.past e (List.mem_of_mem_filter he)
  guarded deadline hwait := by
    obtain ⟨hpos, hsoon, hlate, hyoung⟩ := h.guarded deadline hwait
    exact ⟨hpos, hsoon, hlate, fun e he ↦ hyoung e (List.mem_of_mem_filter he)⟩

/-- **What a look at the map comes to.** -/
theorem wake_cases (h : Inv late s) (hstep : step late s .wake = some s') :
    (∃ stuck, s.active.head? = some stuck ∧ s.timeout ≤ s.clock - stuck.since ∧
        s' = { s with thread := .hung stuck s.clock }) ∨
      (∀ e ∈ s.active, s.clock < e.since + s.timeout) ∧
        (s.stopping = true ∧ s' = { s with thread := .exited } ∨
          s.stopping = false ∧
            s' = { s with thread := .waiting (s.clock + milliseconds 500) }) := by
  rw [step] at hstep
  split at hstep
  · split at hstep
    · next stuck hstuck =>
      obtain ⟨hhead, hage⟩ := (overdue_eq_some_iff h.since).1 hstuck
      exact Or.inl ⟨stuck, hhead, hage, (Option.some.inj hstep).symm⟩
    · next hnone =>
      have hyoung : ∀ e ∈ s.active, s.clock < e.since + s.timeout := by
        intro e he
        have hnot := List.find?_eq_none.1 hnone e he
        have hpast := h.past e he
        simp only [decide_eq_true_eq, not_not] at hnot
        omega
      refine Or.inr ⟨hyoung, ?_⟩
      split at hstep
      · next hstop => exact Or.inl ⟨hstop, (Option.some.inj hstep).symm⟩
      · next hstop => exact Or.inr ⟨Bool.eq_false_iff.2 hstop, (Option.some.inj hstep).symm⟩
  · cases hstep

/-- Time does not pass beyond what the thread may be late. -/
theorem pass_cases {time : ℕ} (hstep : step late s (.pass time) = some s') :
    s' = { s with clock := s.clock + time } ∧
      ∀ deadline, s.thread = .waiting deadline → s.clock + time ≤ deadline + late := by
  rw [step] at hstep
  split at hstep
  · next deadline hthread =>
    split at hstep
    · next hle =>
      refine ⟨(Option.some.inj hstep).symm, fun deadline' hwait ↦ ?_⟩
      obtain rfl := Thread.waiting.inj (hthread.symm.trans hwait)
      exact hle
    · cases hstep
  · next hthread =>
    exact ⟨(Option.some.inj hstep).symm, fun deadline hwait ↦ absurd hwait (hthread deadline)⟩

theorem Inv.step (a : Action) (h : Inv late s) (hstep : Watchdog.step late s a = some s') :
    Inv late s' := by
  cases a with
  | enter what =>
    obtain rfl := Option.some.inj hstep
    exact h.enter what
  | leave id =>
    obtain rfl := Option.some.inj hstep
    exact h.leave id
  | wake =>
    rcases wake_cases h hstep with ⟨stuck, -, -, rfl⟩ | ⟨hyoung, ⟨-, rfl⟩ | ⟨-, rfl⟩⟩
    · exact ⟨h.ids, h.since, h.past, fun _ hwait ↦ by cases hwait⟩
    · exact ⟨h.ids, h.since, h.past, fun _ hwait ↦ by cases hwait⟩
    · refine ⟨h.ids, h.since, h.past, fun deadline hwait ↦ ?_⟩
      obtain rfl := Thread.waiting.inj hwait
      have hpos : 0 < s.timeout := by
        rw [Watchdog.step] at hstep
        split at hstep
        · next deadline hthread => exact (h.guarded deadline hthread).1
        · cases hstep
      refine ⟨hpos, le_refl _, ?_, fun e he ↦ ?_⟩
      · show s.clock ≤ s.clock + milliseconds 500 + late
        omega
      · show s.clock + milliseconds 500 < e.since + s.timeout + milliseconds 500
        have := hyoung e he
        omega
  | stop =>
    obtain rfl := Option.some.inj hstep
    exact ⟨h.ids, h.since, h.past, h.guarded⟩
  | pass time =>
    obtain ⟨rfl, hle⟩ := pass_cases hstep
    refine ⟨h.ids, h.since, fun e he ↦ Nat.le_add_right_of_le (h.past e he),
      fun deadline hwait ↦ ?_⟩
    obtain ⟨hpos, hsoon, -, hyoung⟩ := h.guarded deadline hwait
    refine ⟨hpos, ?_, hle deadline hwait, hyoung⟩
    show deadline ≤ s.clock + time + milliseconds 500
    omega

end Steps

/-- The states the watchdog can get to. -/
def Reachable (late : ℕ) (s : State) : Prop :=
  ∃ now timeoutS, Machine.Reachable (step late) (start now timeoutS) s

theorem Reachable.inv {late : ℕ} {s : State} (h : Reachable late s) : Inv late s := by
  obtain ⟨now, timeoutS, hreach⟩ := h
  exact hreach.invariant (inv_start late now timeoutS) Inv.step

/-! ### What is reported -/

/-- **What the watchdog reports.** Whenever it looks, it ends the process exactly if the first scope
of the map has been active for the timeout, and then it is this scope that it names; none of the
others was entered before it. -/
theorem wake_reports_iff {late : ℕ} {s s' : State} (h : Reachable late s)
    (hstep : step late s .wake = some s') :
    (∀ stuck now, s'.thread = .hung stuck now ↔
      now = s.clock ∧ s.active.head? = some stuck ∧ stuck.since + s.timeout ≤ s.clock) ∧
      ∀ stuck, s.active.head? = some stuck → ∀ e ∈ s.active, stuck.since ≤ e.since := by
  have hinv := h.inv
  have holdest : ∀ stuck, s.active.head? = some stuck → ∀ e ∈ s.active, stuck.since ≤ e.since := by
    intro stuck hhead e he
    obtain ⟨rest, hactive⟩ := List.head?_eq_some_iff.1 hhead
    have hsince := hinv.since
    rw [hactive] at he hsince
    rcases List.mem_cons.1 he with rfl | hmem
    · exact le_refl _
    · exact List.rel_of_pairwise_cons hsince hmem
  refine ⟨fun stuck now ↦ ?_, holdest⟩
  rcases wake_cases hinv hstep with ⟨first, hhead, hage, rfl⟩ | ⟨hyoung, hgoes⟩
  · have hpast := hinv.past first (List.mem_of_mem_head? hhead)
    constructor
    · intro hhung
      obtain ⟨rfl, rfl⟩ := Thread.hung.inj hhung
      exact ⟨rfl, hhead, by omega⟩
    · rintro ⟨rfl, hfirst, -⟩
      obtain rfl := Option.some.inj (hhead.symm.trans hfirst)
      rfl
  · constructor
    · intro hhung
      rcases hgoes with ⟨-, rfl⟩ | ⟨-, rfl⟩ <;> cases hhung
    · rintro ⟨-, hfirst, hage⟩
      have hlt := hyoung stuck (List.mem_of_mem_head? hfirst)
      omega

/-- Two scopes, one of which is left in time. -/
theorem wake_reports_iff_one_left :
    ∃ s s' : State, Reachable 0 s ∧ step 0 s .wake = some s' ∧
      s.active = [⟨1, Bytes.ofString "scan", 0⟩] ∧
      (∀ stuck now, s'.thread = .hung stuck now ↔
        now = s.clock ∧ s.active.head? = some stuck ∧ stuck.since + s.timeout ≤ s.clock) ∧
        ∀ stuck, s.active.head? = some stuck → ∀ e ∈ s.active, stuck.since ≤ e.since := by
  have hreach : Reachable 0 _ := ⟨0, 1, Machine.reachable_of_isSome
    (show (Machine.run (step 0) (start 0 1) [.enter (Bytes.ofString "scan"),
      .pass (milliseconds 500), .wake, .enter (Bytes.ofString "pipe:ping"),
      .pass (milliseconds 500), .leave 2]).isSome = true by decide +kernel)⟩
  exact ⟨_, _, hreach, (Option.some_get (by decide +kernel)).symm, by decide +kernel,
    wake_reports_iff hreach (Option.some_get _).symm⟩

/-! ### A scope that is never left -/

/-- As long as the scope is not left, the thread is on guard or has reported in time. -/
structure Watched (late : ℕ) (e : Scope) (timeout : ℕ) (s : State) : Prop where
  inv : Inv late s
  timeout_eq : s.timeout = timeout
  active : e ∈ s.active
  going : s.stopping = false
  thread : (∃ deadline, s.thread = .waiting deadline) ∨
    ∃ stuck now, s.thread = .hung stuck now ∧ stuck.since ≤ e.since ∧
      stuck.since + timeout ≤ now ∧ now < e.since + timeout + milliseconds 500 + late

/-- The scope is not left, and the watchdog is not stopped. -/
def Stays (id : ℕ) (a : Action) : Prop :=
  a ≠ .leave id ∧ a ≠ .stop

theorem Watched.step {late timeout : ℕ} {e : Scope} {s s' : State} (a : Action)
    (ha : Stays e.id a) (h : Watched late e timeout s)
    (hstep : Watchdog.step late s a = some s') : Watched late e timeout s' := by
  have hinv' := h.inv.step a hstep
  cases a with
  | enter what =>
    obtain rfl := Option.some.inj hstep
    refine ⟨hinv', h.timeout_eq, ?_, h.going, h.thread⟩
    show e ∈ emplace _ _
    rw [active_enter h.inv]
    exact List.mem_append_left _ h.active
  | leave id =>
    obtain rfl := Option.some.inj hstep
    have hne : e.id ≠ id := fun heq ↦ ha.1 (congrArg Action.leave heq.symm)
    exact ⟨hinv', h.timeout_eq, List.mem_filter.2 ⟨h.active, decide_eq_true hne⟩, h.going, h.thread⟩
  | wake =>
    rcases wake_cases h.inv hstep with ⟨stuck, hhead, hage, rfl⟩ | ⟨-, ⟨hstop, -⟩ | ⟨-, rfl⟩⟩
    · refine ⟨hinv', h.timeout_eq, h.active, h.going, Or.inr ⟨stuck, s.clock, rfl, ?_, ?_, ?_⟩⟩
      · obtain ⟨rest, hactive⟩ := List.head?_eq_some_iff.1 hhead
        have hsince := h.inv.since
        have hmem := h.active
        rw [hactive] at hsince hmem
        rcases List.mem_cons.1 hmem with rfl | hmem
        · exact le_refl _
        · exact List.rel_of_pairwise_cons hsince hmem
      · have hpast := h.inv.past stuck (List.mem_of_mem_head? hhead)
        have := h.timeout_eq
        omega
      · -- it was waiting, and not longer than it may
        rcases h.thread with ⟨deadline, hwait⟩ | ⟨stuck', now, hhung, -⟩
        · obtain ⟨-, -, hlate, hyoung⟩ := h.inv.guarded deadline hwait
          have := hyoung e h.active
          have := h.timeout_eq
          omega
        · rw [Watchdog.step, hhung] at hstep
          cases hstep
    · rw [h.going] at hstop
      cases hstop
    · exact ⟨hinv', h.timeout_eq, h.active, h.going, Or.inl ⟨_, rfl⟩⟩
  | stop => exact absurd rfl ha.2
  | pass time =>
    obtain ⟨rfl, -⟩ := pass_cases hstep
    exact ⟨hinv', h.timeout_eq, h.active, h.going, h.thread⟩

/-- **A scope that is never left is reported in time.** Whatever the other threads enter and leave
and whenever the waits of the watchdog end: once the scope `e` is older than the timeout, half a
second and `late` together, the watchdog has ended the process for it or for an older one, and has
done so before that time. -/
theorem stuck_scope_is_reported {late : ℕ} {s s' : State} (h : Reachable late s) {deadline : ℕ}
    (hwait : s.thread = .waiting deadline) (hgoing : s.stopping = false) {e : Scope}
    (he : e ∈ s.active) {actions : List Action} (hstays : ∀ a ∈ actions, Stays e.id a)
    (hrun : Machine.run (step late) s actions = some s')
    (htime : e.since + s.timeout + milliseconds 500 + late ≤ s'.clock) :
    ∃ stuck now, s'.thread = .hung stuck now ∧ stuck.since ≤ e.since ∧
      stuck.since + s.timeout ≤ now ∧
        now < e.since + s.timeout + milliseconds 500 + late := by
  have hwatched : Watched late e s.timeout s :=
    ⟨h.inv, rfl, he, hgoing, Or.inl ⟨deadline, hwait⟩⟩
  have hend := Machine.run_invariant_of_forall Watched.step hstays hwatched hrun
  rcases hend.thread with ⟨deadline', hwait'⟩ | hhung
  · obtain ⟨-, -, hlate, hyoung⟩ := hend.inv.guarded deadline' hwait'
    have := hyoung e hend.active
    have := hend.timeout_eq
    omega
  · exact hhung

/-- A scan that blocks, with a timeout of one second and a thread that is never late. -/
theorem stuck_scope_is_reported_blocked_scan :
    ∃ s s' : State, Reachable 0 s ∧
      Machine.run (step 0) s [.pass (milliseconds 500), .wake, .enter (Bytes.ofString "pipe:ping"),
        .pass (milliseconds 500), .wake, .pass (milliseconds 500)] = some s' ∧
      ∃ stuck now, s'.thread = .hung stuck now ∧ stuck.since ≤ 0 ∧
        stuck.since + s.timeout ≤ now ∧ now < 0 + s.timeout + milliseconds 500 + 0 := by
  have hreach : Reachable 0 _ := ⟨0, 1, Machine.reachable_of_isSome
    (show (Machine.run (step 0) (start 0 1) [.enter (Bytes.ofString "scan")]).isSome = true by
      decide +kernel)⟩
  refine ⟨_, _, hreach, (Option.some_get (by decide +kernel)).symm, ?_⟩
  refine stuck_scope_is_reported hreach (e := ⟨1, Bytes.ofString "scan", 0⟩)
    (show _ = Thread.waiting (milliseconds 500) by decide +kernel) (by decide +kernel)
    (by decide +kernel) ?_ (Option.some_get _).symm (by decide +kernel)
  simp [Stays]

end NanoSensor.Watchdog
