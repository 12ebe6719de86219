import Mathlib.Logic.Function.Basic
import NanoSensor.Foundation.Machine

/-!
# Scan requests

How a `scan` request of `src/agent.cpp` gets its answer: `handle_scan` on one of any number of pipe
threads registers a `ScanWaiter`, sets `scan_requested` and waits; `worker_loop` clears the flag,
runs a scan, swaps the list of listeners out and notifies each.

Registration and wake-up are under different locks, so what counts is every interleaving of the
sections under a lock. `Action` has one constructor for each section, and `step` is what the section
does. The two waits are modelled by what may follow them: the worker may wake up whenever it waits,
because its next scan may be due, and a handler may give up whenever it waits, because its time may
be over. A `ScanResult` is passed along unread, so its type is a parameter.

Two things are recorded that the program does not have: `clock` counts steps, so that a result can
say when its `collect_inventory` began, and `notified` counts the calls of `on_scan_complete`.

With the fault `UseAfterFree` a handler deletes its waiter when it stops waiting. Notifying a waiter
that was deleted is undefined, and the machine has no such step.
-/

namespace NanoSensor.Agent

/-- `enum class Fault`: the bug that is switched on, if any. -/
inductive Fault
  | none
  | useAfterFree
  | deadlock
  | workerCrash
  deriving DecidableEq, Repr

/-- A `ScanResult`, with the time at which the `collect_inventory` it came from began. -/
structure ScanResult (R : Type) where
  value : R
  began : ℕ
  deriving DecidableEq, Repr

/-- `class ScanWaiter`. -/
structure Waiter (R : Type) where
  done : Bool
  result : Option (ScanResult R)
  /-- `delete waiter` has run. -/
  freed : Bool
  /-- How often `on_scan_complete` was called. -/
  notified : ℕ
  deriving DecidableEq, Repr

/-- Where a call of `handle_scan` is. -/
inductive Handler (R : Type)
  | idle
  /-- The waiter is in the list of listeners. -/
  | registered
  /-- `request_scan` has run; in `wait`. -/
  | requested
  /-- `wait` has returned: with a result, `completed = true`, or without. -/
  | answered (r : Option (ScanResult R))
  deriving DecidableEq, Repr

/-- Where the worker is. -/
inductive Worker (R : Type)
  /-- In `wake_cv.wait_until`. -/
  | waiting
  /-- `scan_requested` is cleared, `run_scan` called. -/
  | started
  /-- `collect_inventory` has begun. -/
  | collecting (began : ℕ)
  /-- The section under `db_mu` is over. -/
  | stored (r : ScanResult R)
  /-- The section under `state_mu` is over. -/
  | recorded (r : ScanResult R)
  /-- The list was swapped out; `rest` are the waiters still to be notified. -/
  | delivering (r : ScanResult R) (rest : List ℕ)
  /-- `worker_loop` has returned. -/
  | exited
  deriving DecidableEq, Repr

/-- The part of `Agent::Impl` that requests are about, and the threads. A waiter is named by the
request it belongs to. -/
structure State (R : Type) where
  listeners : List ℕ
  scanRequested : Bool
  stopping : Bool
  worker : Worker R
  handler : ℕ → Handler R
  waiter : ℕ → Waiter R
  clock : ℕ

/-- One section under a lock, or the beginning of `collect_inventory`. -/
inductive Action (R : Type)
  | register (i : ℕ)
  | request (i : ℕ)
  | answer (i : ℕ)
  | wake
  | collect
  | store (value : R)
  | record
  | swap
  | deliver
  | finish
  | stop
  deriving DecidableEq, Repr

variable {R : Type}

/-- A `ScanWaiter` as it is constructed. -/
def Waiter.new : Waiter R :=
  ⟨false, none, false, 0⟩

/-- `ScanWaiter::on_scan_complete`. -/
def Waiter.onScanComplete (w : Waiter R) (r : ScanResult R) : Waiter R :=
  { w with result := some r, done := true, notified := w.notified + 1 }

/-- What the section does. -/
def act (fault : Fault) (s : State R) : Action R → Option (State R)
  | .register i =>
    -- `handle_scan`: `listeners.push_back(waiter)`
    match s.handler i with
    | .idle =>
      some { s with
        listeners := s.listeners ++ [i]
        handler := Function.update s.handler i .registered }
    | _ => none
  | .request i =>
    -- `request_scan`
    match s.handler i with
    | .registered =>
      some { s with
        scanRequested := true
        handler := Function.update s.handler i .requested }
    | _ => none
  | .answer i =>
    -- `ScanWaiter::wait` returns, because the result is there or the time is over
    match s.handler i with
    | .requested =>
      let w := s.waiter i
      some { s with
        handler := Function.update s.handler i (.answered (if w.done then w.result else none))
        waiter := if fault = .useAfterFree then Function.update s.waiter i { w with freed := true }
          else s.waiter }
    | _ => none
  | .wake =>
    -- `worker_loop`, behind `wait_until`
    match s.worker with
    | .waiting =>
      if s.stopping then some { s with worker := .exited }
      else some { s with scanRequested := false, worker := .started }
    | _ => none
  | .collect =>
    match s.worker with
    | .started => some { s with worker := .collecting s.clock }
    | _ => none
  | .store value =>
    match s.worker with
    | .collecting began =>
      match fault with
      | .workerCrash => none -- `worst_finding` throws, and the process ends
      | .deadlock => some { s with worker := .recorded ⟨value, began⟩ } -- one section in the other
      | .none | .useAfterFree => some { s with worker := .stored ⟨value, began⟩ }
    | _ => none
  | .record =>
    match s.worker with
    | .stored r => some { s with worker := .recorded r }
    | _ => none
  | .swap =>
    -- `waiting.swap(listeners)`
    match s.worker with
    | .recorded r => some { s with listeners := [], worker := .delivering r s.listeners }
    | _ => none
  | .deliver =>
    -- `l->on_scan_complete(r)`
    match s.worker with
    | .delivering r (i :: rest) =>
      if (s.waiter i).freed then none
      else
        some { s with
          worker := .delivering r rest
          waiter := Function.update s.waiter i ((s.waiter i).onScanComplete r) }
    | _ => none
  | .finish =>
    match s.worker with
    | .delivering _ [] => some { s with worker := .waiting }
    | _ => none
  | .stop =>
    -- `Agent::stop`
    some { s with stopping := true }

/-- One step: a section, and the clock. -/
def step (fault : Fault) (s : State R) (a : Action R) : Option (State R) :=
  (act fault s a).map fun s' ↦ { s' with clock := s.clock + 1 }

/-- The agent when its worker starts. -/
def start : State R where
  listeners := []
  scanRequested := false
  stopping := false
  worker := .waiting
  handler := fun _ ↦ .idle
  waiter := fun _ ↦ .new
  clock := 0

/-- `s` can be reached by some interleaving. -/
def Reachable (fault : Fault) (s : State R) : Prop :=
  Machine.Reachable (step fault) start s

/-! ### What a state says -/

/-- `handle_scan` has registered its waiter. -/
def Handler.hasRegistered : Handler R → Bool
  | .idle => false
  | .registered | .requested | .answered _ => true

/-- `handle_scan` has run `request_scan`. -/
def Handler.hasRequested : Handler R → Bool
  | .idle | .registered => false
  | .requested | .answered _ => true

/-- Between clearing `scan_requested` and swapping the list. -/
def Worker.beforeSwap : Worker R → Bool
  | .started | .collecting _ | .stored _ | .recorded _ => true
  | .waiting | .delivering _ _ | .exited => false

/-- The waiters swapped out and not notified yet. -/
def Worker.toNotify : Worker R → List ℕ
  | .delivering _ rest => rest
  | .waiting | .started | .collecting _ | .stored _ | .recorded _ | .exited => []

/-- When the `collect_inventory` of the scan under way began. -/
def Worker.began? : Worker R → Option ℕ
  | .collecting began => some began
  | .stored r | .recorded r => some r.began
  | .waiting | .started | .delivering _ _ | .exited => none

/-- `collect_inventory` has begun and the list is not swapped out yet. -/
def Worker.UnderWay (w : Worker R) : Prop :=
  w.began?.isSome = true

instance (w : Worker R) : Decidable w.UnderWay :=
  inferInstanceAs (Decidable (_ = _))

/-! ### What a step can do -/

/-- Everything a step can do to a state, guards included. -/
inductive Moves (fault : Fault) (s : State R) : State R → Prop
  | register (i : ℕ) (h : s.handler i = .idle) :
    Moves fault s { s with
      listeners := s.listeners ++ [i]
      handler := Function.update s.handler i .registered
      clock := s.clock + 1 }
  | request (i : ℕ) (h : s.handler i = .registered) :
    Moves fault s { s with
      scanRequested := true
      handler := Function.update s.handler i .requested
      clock := s.clock + 1 }
  | answer (i : ℕ) (r : Option (ScanResult R)) (freed : Bool) (h : s.handler i = .requested)
    (hr : ∀ r', r = some r' → (s.waiter i).result = some r')
    (hfreed : freed = true → (s.waiter i).freed = true ∨ fault = .useAfterFree) :
    Moves fault s { s with
      handler := Function.update s.handler i (.answered r)
      waiter := Function.update s.waiter i { s.waiter i with freed := freed }
      clock := s.clock + 1 }
  | exit (h : s.worker = .waiting) (hstop : s.stopping = true) :
    Moves fault s { s with worker := .exited, clock := s.clock + 1 }
  | wake (h : s.worker = .waiting) :
    Moves fault s { s with
      scanRequested := false, worker := .started, clock := s.clock + 1 }
  | collect (h : s.worker = .started) :
    Moves fault s { s with worker := .collecting s.clock, clock := s.clock + 1 }
  | proceed (w : Worker R) (h : s.worker.UnderWay) (hbegan : w.began? = s.worker.began?) :
    Moves fault s { s with worker := w, clock := s.clock + 1 }
  | swap (r : ScanResult R) (h : s.worker = .recorded r) :
    Moves fault s { s with
      listeners := [], worker := .delivering r s.listeners, clock := s.clock + 1 }
  | deliver (r : ScanResult R) (i : ℕ) (rest : List ℕ) (h : s.worker = .delivering r (i :: rest)) :
    Moves fault s { s with
      worker := .delivering r rest
      waiter := Function.update s.waiter i ((s.waiter i).onScanComplete r)
      clock := s.clock + 1 }
  | finish (r : ScanResult R) (h : s.worker = .delivering r []) :
    Moves fault s { s with worker := .waiting, clock := s.clock + 1 }
  | stop : Moves fault s { s with stopping := true, clock := s.clock + 1 }

/-- `wait` returns what the waiter was given, if anything. Only with the fault `UseAfterFree` does
it delete the waiter. -/
theorem moves_answer (fault : Fault) {s : State R} {i : ℕ} (hi : s.handler i = .requested) :
    Moves fault s { s with
      handler := Function.update s.handler i
        (.answered (if (s.waiter i).done then (s.waiter i).result else none))
      waiter := if fault = .useAfterFree then
        Function.update s.waiter i { s.waiter i with freed := true } else s.waiter
      clock := s.clock + 1 } := by
  have hr : ∀ r', (if (s.waiter i).done then (s.waiter i).result else none) = some r' →
      (s.waiter i).result = some r' := fun r' hr' ↦ by
    split at hr'
    · exact hr'
    · cases hr'
  by_cases hfault : fault = .useAfterFree
  · rw [if_pos hfault]
    exact .answer i _ true hi hr fun _ ↦ Or.inr hfault
  · have hsame : Moves fault s _ := .answer i _ (s.waiter i).freed hi hr Or.inl
    rw [if_neg hfault]
    rwa [Function.update_eq_self] at hsame

theorem moves_of_step {fault : Fault} {s s' : State R} {a : Action R}
    (h : step fault s a = some s') : Moves fault s s' := by
  obtain ⟨s₁, hact, rfl⟩ := Option.map_eq_some_iff.1 h
  cases a with
  | register i =>
    rw [act] at hact
    split at hact
    · next hi =>
      obtain rfl := Option.some.inj hact
      exact .register i hi
    · cases hact
  | request i =>
    rw [act] at hact
    split at hact
    · next hi =>
      obtain rfl := Option.some.inj hact
      exact .request i hi
    · cases hact
  | answer i =>
    rw [act] at hact
    split at hact
    · next hi =>
      obtain rfl := Option.some.inj hact
      exact moves_answer fault hi
    · cases hact
  | wake =>
    rw [act] at hact
    split at hact
    · next hw =>
      split at hact
      · next hstop =>
        obtain rfl := Option.some.inj hact
        exact .exit hw hstop
      · obtain rfl := Option.some.inj hact
        exact .wake hw
    · cases hact
  | collect =>
    rw [act] at hact
    split at hact
    · next hw =>
      obtain rfl := Option.some.inj hact
      exact .collect hw
    · cases hact
  | store value =>
    rw [act] at hact
    split at hact
    · next began hw =>
      have hway : s.worker.UnderWay := by rw [hw]; rfl
      split at hact
      · cases hact
      · obtain rfl := Option.some.inj hact
        exact .proceed _ hway (by rw [hw]; rfl)
      · obtain rfl := Option.some.inj hact
        exact .proceed _ hway (by rw [hw]; rfl)
      · obtain rfl := Option.some.inj hact
        exact .proceed _ hway (by rw [hw]; rfl)
    · cases hact
  | record =>
    rw [act] at hact
    split at hact
    · next r hw =>
      obtain rfl := Option.some.inj hact
      exact .proceed _ (by rw [hw]; rfl) (by rw [hw]; rfl)
    · cases hact
  | swap =>
    rw [act] at hact
    split at hact
    · next r hw =>
      obtain rfl := Option.some.inj hact
      exact .swap r hw
    · cases hact
  | deliver =>
    rw [act] at hact
    split at hact
    · next r i rest hw =>
      split at hact
      · cases hact
      · obtain rfl := Option.some.inj hact
        exact .deliver r i rest hw
    · cases hact
  | finish =>
    rw [act] at hact
    split at hact
    · next r hw =>
      obtain rfl := Option.some.inj hact
      exact .finish r hw
    · cases hact
  | stop =>
    obtain rfl := Option.some.inj hact
    exact .stop

/-! ### No request is lost -/

/-- What holds in every interleaving. -/
structure Inv (s : State R) : Prop where
  /-- Nobody is on the list twice, or on the list and among those to be notified. -/
  nodup : (s.listeners ++ s.worker.toNotify).Nodup
  /-- Those are the waiters that were registered and not notified. -/
  pending : ∀ i, i ∈ s.listeners ++ s.worker.toNotify ↔
    (s.handler i).hasRegistered = true ∧ (s.waiter i).notified = 0
  once : ∀ i, (s.waiter i).notified ≤ 1
  /-- Before `handle_scan` registers its waiter, the waiter is as it was constructed. -/
  fresh : ∀ i, (s.handler i).hasRegistered = false → s.waiter i = .new
  /-- A request for someone on the list is still to be served. -/
  covered : ∀ i ∈ s.listeners, (s.handler i).hasRequested = true →
    s.scanRequested = true ∨ s.worker.beforeSwap = true ∨ s.stopping = true
  past : ∀ began, s.worker.began? = some began → began < s.clock

theorem inv_start : Inv (start : State R) where
  nodup := List.nodup_nil
  pending := fun _ ↦ iff_of_false List.not_mem_nil fun h ↦ absurd h.1 Bool.false_ne_true
  once := fun _ ↦ Nat.zero_le 1
  fresh := fun _ _ ↦ rfl
  covered := List.forall_mem_nil _
  past := nofun

theorem Handler.hasRegistered_of_hasRequested : ∀ {h : Handler R},
    h.hasRequested = true → h.hasRegistered = true
  | .requested, _ => rfl
  | .answered _, _ => rfl

/-- A request that goes on stays registered. -/
theorem hasRegistered_update {handler : ℕ → Handler R} {i : ℕ} {h : Handler R}
    (hi : (handler i).hasRegistered = true) (hh : h.hasRegistered = true) (j : ℕ) :
    (Function.update handler i h j).hasRegistered = (handler j).hasRegistered := by
  rcases eq_or_ne j i with rfl | hne
  · rw [Function.update_self, hi, hh]
  · rw [Function.update_of_ne hne]

theorem Worker.toNotify_eq_nil_of_underWay : ∀ {w : Worker R}, w.UnderWay → w.toNotify = []
  | .collecting _, _ | .stored _, _ | .recorded _, _ => rfl

theorem Worker.beforeSwap_of_underWay : ∀ {w : Worker R}, w.UnderWay → w.beforeSwap = true
  | .collecting _, _ | .stored _, _ | .recorded _, _ => rfl

namespace Inv

variable {fault : Fault} {s s' : State R} {i : ℕ}

/-- Not registered means not on any list. -/
theorem not_mem_of_idle (h : Inv s) (hi : s.handler i = .idle) :
    i ∉ s.listeners ++ s.worker.toNotify := fun hmem ↦ by
  have hreg := ((h.pending i).1 hmem).1
  rw [hi] at hreg
  cases hreg

theorem register (h : Inv s) (hi : s.handler i = .idle) :
    Inv { s with
      listeners := s.listeners ++ [i]
      handler := Function.update s.handler i .registered
      clock := s.clock + 1 } := by
  have hnot := h.not_mem_of_idle hi
  have hfresh : s.waiter i = .new := h.fresh i (by rw [hi]; rfl)
  have hperm : ((s.listeners ++ [i]) ++ s.worker.toNotify).Perm
      (i :: (s.listeners ++ s.worker.toNotify)) := by
    rw [List.append_assoc]
    exact List.perm_middle
  refine ⟨?_, fun j ↦ ?_, h.once, fun j hj ↦ ?_, fun j hj hreq ↦ ?_, fun b hb ↦ ?_⟩
  · exact hperm.nodup_iff.2 (List.nodup_cons.2 ⟨hnot, h.nodup⟩)
  · rw [hperm.mem_iff, List.mem_cons, h.pending j]
    show _ ↔ (Function.update s.handler i .registered j).hasRegistered = true ∧
      (s.waiter j).notified = 0
    rcases eq_or_ne j i with rfl | hne
    · rw [Function.update_self, hfresh]
      exact iff_of_true (Or.inl rfl) ⟨rfl, rfl⟩
    · rw [Function.update_of_ne hne]
      exact or_iff_right hne
  · show s.waiter j = .new
    rcases eq_or_ne j i with rfl | hne
    · exact hfresh
    · exact h.fresh j (by rwa [← Function.update_of_ne hne .registered s.handler])
  · -- the new one has not run `request_scan` yet
    rcases eq_or_ne j i with rfl | hne
    · replace hreq : (Function.update s.handler j .registered j).hasRequested = true := hreq
      rw [Function.update_self] at hreq
      cases hreq
    · replace hreq : (Function.update s.handler i .registered j).hasRequested = true := hreq
      rw [Function.update_of_ne hne] at hreq
      rcases List.mem_append.1 hj with hj | hj
      · exact h.covered j hj hreq
      · exact absurd (List.mem_singleton.1 hj) hne
  · exact Nat.lt_succ_of_lt (h.past b hb)

/-- A registered request goes on; `covered` is left to show. -/
theorem setHandler (h : Inv s) {new : Handler R} {waiter : ℕ → Waiter R} {flag : Bool}
    (hi : (s.handler i).hasRegistered = true) (hnew : new.hasRegistered = true)
    (hnotified : ∀ j, (waiter j).notified = (s.waiter j).notified)
    (hwaiter : ∀ j, j ≠ i → waiter j = s.waiter j)
    (hcovered : ∀ j ∈ s.listeners, (Function.update s.handler i new j).hasRequested = true →
      flag = true ∨ s.worker.beforeSwap = true ∨ s.stopping = true) :
    Inv { s with
      scanRequested := flag
      handler := Function.update s.handler i new
      waiter := waiter
      clock := s.clock + 1 } := by
  have hreg := hasRegistered_update hi hnew
  refine ⟨h.nodup, fun j ↦ ?_, fun j ↦ ?_, fun j hj ↦ ?_, hcovered, fun b hb ↦ ?_⟩
  · show _ ↔ (Function.update s.handler i new j).hasRegistered = true ∧ (waiter j).notified = 0
    rw [hreg, hnotified]
    exact h.pending j
  · show (waiter j).notified ≤ 1
    rw [hnotified]
    exact h.once j
  · replace hj : (Function.update s.handler i new j).hasRegistered = false := hj
    show waiter j = .new
    rw [hreg] at hj
    have hne : j ≠ i := fun heq ↦ by
      rw [heq, hi] at hj
      cases hj
    rw [hwaiter j hne]
    exact h.fresh j hj
  · exact Nat.lt_succ_of_lt (h.past b hb)

/-- The worker goes on without touching a waiter or the list. -/
theorem setWorker (h : Inv s) {w : Worker R} {flag : Bool}
    (hnotify : w.toNotify = s.worker.toNotify)
    (hcovered : s.scanRequested = true ∨ s.worker.beforeSwap = true ∨ s.stopping = true →
      flag = true ∨ w.beforeSwap = true ∨ s.stopping = true)
    (hpast : ∀ b, w.began? = some b → b < s.clock + 1) :
    Inv { s with scanRequested := flag, worker := w, clock := s.clock + 1 } where
  nodup := by
    show (s.listeners ++ w.toNotify).Nodup
    rw [hnotify]
    exact h.nodup
  pending := fun j ↦ by
    show j ∈ s.listeners ++ w.toNotify ↔ _
    rw [hnotify]
    exact h.pending j
  once := h.once
  fresh := h.fresh
  covered := fun j hj hreq ↦ hcovered (h.covered j hj hreq)
  past := hpast

theorem swap (h : Inv s) {r : ScanResult R} (hw : s.worker = .recorded r) :
    Inv { s with listeners := [], worker := .delivering r s.listeners, clock := s.clock + 1 } := by
  have hall : s.listeners ++ s.worker.toNotify = s.listeners := by
    rw [hw]
    exact List.append_nil _
  refine ⟨?_, fun j ↦ ?_, h.once, h.fresh, List.forall_mem_nil _, nofun⟩
  · show s.listeners.Nodup
    rw [← hall]
    exact h.nodup
  · show j ∈ s.listeners ↔ _
    rw [← hall]
    exact h.pending j

theorem deliver (h : Inv s) {r : ScanResult R} {rest : List ℕ}
    (hw : s.worker = .delivering r (i :: rest)) :
    Inv { s with
      worker := .delivering r rest
      waiter := Function.update s.waiter i ((s.waiter i).onScanComplete r)
      clock := s.clock + 1 } := by
  have hperm : (s.listeners ++ s.worker.toNotify).Perm (i :: (s.listeners ++ rest)) := by
    rw [hw]
    exact List.perm_middle
  obtain ⟨hnot, hnodup⟩ := List.nodup_cons.1 (hperm.nodup_iff.1 h.nodup)
  have hi := (h.pending i).1 (hperm.mem_iff.2 List.mem_cons_self)
  refine ⟨hnodup, fun j ↦ ?_, fun j ↦ ?_, fun j hj ↦ ?_, fun j hj hreq ↦ ?_, nofun⟩
  · show j ∈ s.listeners ++ rest ↔ (s.handler j).hasRegistered = true ∧
      (Function.update s.waiter i ((s.waiter i).onScanComplete r) j).notified = 0
    rcases eq_or_ne j i with rfl | hne
    · rw [Function.update_self]
      exact iff_of_false hnot fun hj ↦ Nat.succ_ne_zero _ hj.2
    · rw [Function.update_of_ne hne, ← h.pending j, hperm.mem_iff, List.mem_cons]
      exact (or_iff_right hne).symm
  · show (Function.update s.waiter i ((s.waiter i).onScanComplete r) j).notified ≤ 1
    rcases eq_or_ne j i with rfl | hne
    · rw [Function.update_self]
      show (s.waiter j).notified + 1 ≤ 1
      exact Nat.le_of_eq (congrArg (· + 1) hi.2)
    · rw [Function.update_of_ne hne]
      exact h.once j
  · show Function.update s.waiter i ((s.waiter i).onScanComplete r) j = .new
    have hne : j ≠ i := fun heq ↦ by
      rw [heq, hi.1] at hj
      cases hj
    rw [Function.update_of_ne hne]
    exact h.fresh j hj
  · have hcov := h.covered j hj hreq
    rw [hw] at hcov
    exact hcov

/-- **Every step keeps the invariant.** -/
theorem moves (h : Inv s) (hmove : Moves fault s s') : Inv s' := by
  rcases hmove with ⟨i, hi⟩ | ⟨i, hi⟩ | ⟨i, r, freed, hi, -, -⟩ | ⟨hw, -⟩ | ⟨hw⟩ | ⟨hw⟩ |
    ⟨w, hway, hbegan⟩ | ⟨r, hw⟩ | ⟨r, i, rest, hw⟩ | ⟨r, hw⟩ | -
  · exact h.register hi
  · have hreg : (s.handler i).hasRegistered = true := by rw [hi]; rfl
    exact h.setHandler hreg rfl (fun _ ↦ rfl) (fun _ _ ↦ rfl) fun _ _ _ ↦ Or.inl rfl
  · have hreg : (s.handler i).hasRegistered = true := by rw [hi]; rfl
    refine h.setHandler hreg rfl (fun j ↦ ?_) (fun j hne ↦ Function.update_of_ne hne _ _)
      fun j hj hreq ↦ h.covered j hj ?_
    · rcases eq_or_ne j i with rfl | hne
      · rw [Function.update_self]
      · rw [Function.update_of_ne hne]
    · rcases eq_or_ne j i with rfl | hne
      · rw [hi]
        rfl
      · rwa [Function.update_of_ne hne] at hreq
  · exact h.setWorker (by rw [hw]; rfl) (by rw [hw]; exact id) nofun
  · exact h.setWorker (by rw [hw]; rfl) (fun _ ↦ Or.inr (Or.inl rfl)) nofun
  · refine h.setWorker (by rw [hw]; rfl) (fun _ ↦ Or.inr (Or.inl rfl)) fun b hb ↦ ?_
    obtain rfl : s.clock = b := Option.some.inj hb
    exact Nat.lt_succ_self _
  · have hway' : w.UnderWay := by rwa [Worker.UnderWay, hbegan]
    refine h.setWorker ?_ (fun _ ↦ ?_) fun b hb ↦ ?_
    · rw [w.toNotify_eq_nil_of_underWay hway', Worker.toNotify_eq_nil_of_underWay hway]
    · exact Or.inr (Or.inl (Worker.beforeSwap_of_underWay hway'))
    · exact Nat.lt_succ_of_lt (h.past b (hbegan ▸ hb))
  · exact h.swap hw
  · exact h.deliver hw
  · exact h.setWorker (by rw [hw]; rfl) (by rw [hw]; exact id) nofun
  · exact ⟨h.nodup, h.pending, h.once, h.fresh, fun _ _ _ ↦ Or.inr (Or.inr rfl),
      fun b hb ↦ Nat.lt_succ_of_lt (h.past b hb)⟩

end Inv

theorem Reachable.inv {fault : Fault} {s : State R} (h : Reachable fault s) : Inv s :=
  Machine.Reachable.invariant h inv_start fun _ hinv hstep ↦ hinv.moves (moves_of_step hstep)

/-- Only the fault `UseAfterFree` deletes a waiter. -/
theorem Moves.not_freed {fault : Fault} {s s' : State R} (hmove : Moves fault s s')
    (hfault : fault ≠ .useAfterFree) (h : ∀ i, (s.waiter i).freed = false) :
    ∀ i, (s'.waiter i).freed = false := by
  intro j
  rcases hmove with _ | _ | ⟨i, r, freed, -, -, hfreed⟩ | _ | _ | _ | _ | _ |
      ⟨r, i, rest, -⟩ | _ | _
  case answer =>
    show (Function.update s.waiter i { s.waiter i with freed := freed } j).freed = false
    rcases eq_or_ne j i with rfl | hne
    · rw [Function.update_self]
      refine Bool.eq_false_iff.2 fun htrue ↦ ?_
      rcases hfreed htrue with hwas | hbug
      · exact Bool.false_ne_true ((h j).symm.trans hwas)
      · exact hfault hbug
    · rw [Function.update_of_ne hne]
      exact h j
  case deliver =>
    show (Function.update s.waiter i ((s.waiter i).onScanComplete r) j).freed = false
    rcases eq_or_ne j i with rfl | hne
    · rw [Function.update_self]
      exact h j
    · rw [Function.update_of_ne hne]
      exact h j
  all_goals exact h j

theorem Reachable.not_freed {fault : Fault} {s : State R} (h : Reachable fault s)
    (hfault : fault ≠ .useAfterFree) : ∀ i, (s.waiter i).freed = false :=
  Machine.Reachable.invariant h (fun _ ↦ rfl)
    fun _ hinv hstep ↦ (moves_of_step hstep).not_freed hfault hinv

/-- **No scan request is lost or answered twice.** In every interleaving, a waiter that was
registered and whose `request_scan` has run, and that was not notified, is going to be: the flag is
up, or a scan is under way that has not swapped the list yet, or the waiter is in the list that is
being delivered, or the agent stops. None is notified twice, and whoever is still to be notified is
still there. -/
theorem no_request_lost {fault : Fault} (hfault : fault ≠ .useAfterFree) {s : State R}
    (h : Reachable fault s) :
    (∀ i, (s.handler i).hasRequested = true → (s.waiter i).notified = 0 →
      s.scanRequested = true ∨ s.worker.beforeSwap = true ∨ i ∈ s.worker.toNotify ∨
        s.stopping = true) ∧
      (∀ i, (s.waiter i).notified ≤ 1) ∧
      ∀ i ∈ s.listeners ++ s.worker.toNotify, (s.waiter i).freed = false := by
  refine ⟨fun i hreq hnot ↦ ?_, h.inv.once, fun i _ ↦ h.not_freed hfault i⟩
  have hmem := (h.inv.pending i).2 ⟨Handler.hasRegistered_of_hasRequested hreq, hnot⟩
  rcases List.mem_append.1 hmem with hlisted | hswapped
  · rcases h.inv.covered i hlisted hreq with hflag | hscan | hstop
    · exact Or.inl hflag
    · exact Or.inr (Or.inl hscan)
    · exact Or.inr (Or.inr (Or.inr hstop))
  · exact Or.inr (Or.inr (Or.inl hswapped))

/-- The worker wakes up by itself, and two requests come while it scans: the first before the list
is swapped, the second after it. -/
theorem no_request_lost_two_requests :
    ∃ s : State ℕ, Machine.run (step .none) start [.wake, .register 0, .request 0, .collect,
        .store 7, .record, .swap, .register 1, .request 1] = some s ∧
      (s.worker.toNotify = [0] ∧ s.listeners = [1] ∧ s.scanRequested = true) ∧
      (∀ i, (s.handler i).hasRequested = true → (s.waiter i).notified = 0 →
        s.scanRequested = true ∨ s.worker.beforeSwap = true ∨ i ∈ s.worker.toNotify ∨
          s.stopping = true) ∧
        (∀ i, (s.waiter i).notified ≤ 1) ∧
        ∀ i ∈ s.listeners ++ s.worker.toNotify, (s.waiter i).freed = false :=
  ⟨_, (Option.some_get (by decide)).symm, by decide,
    no_request_lost (show Fault.none ≠ .useAfterFree by decide) (Machine.reachable_of_isSome _)⟩

/-! ### Which scan answers -/

/-- The scan that answers a request has property `Q`, which is about when it began. -/
structure AnsweredBy (i : ℕ) (Q : ℕ → Prop) (s : State R) : Prop where
  busy : s.handler i ≠ .idle
  /-- On the list: it is the scan under way, or else the next to begin. -/
  current : i ∈ s.listeners → ∀ began, s.worker.began? = some began → Q began
  next : i ∈ s.listeners → s.worker.began? = none → ∀ began, s.clock ≤ began → Q began
  swapped : ∀ r rest, s.worker = .delivering r rest → i ∈ rest → Q r.began
  result : ∀ r, (s.waiter i).result = some r → Q r.began
  answered : ∀ r, s.handler i = .answered (some r) → Q r.began

namespace AnsweredBy

variable {fault : Fault} {s s' : State R} {i : ℕ} {Q : ℕ → Prop}

/-- A handler goes on, and the worker does not. -/
theorem setHandler (h : AnsweredBy i Q s) {listeners : List ℕ} {flag : Bool} {j : ℕ}
    {new : Handler R} {waiter : ℕ → Waiter R} (hlist : i ∈ listeners → i ∈ s.listeners)
    (hbusy : new ≠ .idle) (hresult : (waiter i).result = (s.waiter i).result)
    (hanswered : i = j → ∀ r, new = .answered (some r) → Q r.began) :
    AnsweredBy i Q { s with
      listeners := listeners
      scanRequested := flag
      handler := Function.update s.handler j new
      waiter := waiter
      clock := s.clock + 1 } where
  busy := by
    show Function.update s.handler j new i ≠ .idle
    rcases eq_or_ne i j with rfl | hne
    · rwa [Function.update_self]
    · rw [Function.update_of_ne hne]
      exact h.busy
  current := fun hi ↦ h.current (hlist hi)
  next := fun hi hnone b hb ↦ h.next (hlist hi) hnone b (Nat.le_of_succ_le hb)
  swapped := h.swapped
  result := fun r hr ↦ h.result r (hresult ▸ hr)
  answered := by
    show ∀ r, Function.update s.handler j new i = .answered (some r) → Q r.began
    rcases eq_or_ne i j with rfl | hne
    · rw [Function.update_self]
      exact hanswered rfl
    · rw [Function.update_of_ne hne]
      exact h.answered

/-- The worker goes on without touching a waiter or the list. -/
theorem setWorker (h : AnsweredBy i Q s) {w : Worker R} {flag : Bool}
    (hcurrent : i ∈ s.listeners → ∀ b, w.began? = some b → Q b)
    (hnext : w.began? = none → s.worker.began? = none)
    (hswapped : ∀ r rest, w = .delivering r rest → i ∈ rest → Q r.began) :
    AnsweredBy i Q { s with scanRequested := flag, worker := w, clock := s.clock + 1 } where
  busy := h.busy
  current := hcurrent
  next := fun hi hnone b hb ↦ h.next hi (hnext hnone) b (Nat.le_of_succ_le hb)
  swapped := hswapped
  result := h.result
  answered := h.answered

theorem swap (h : AnsweredBy i Q s) {r : ScanResult R} (hw : s.worker = .recorded r) :
    AnsweredBy i Q { s with
      listeners := [], worker := .delivering r s.listeners, clock := s.clock + 1 } where
  busy := h.busy
  current := nofun
  next := nofun
  swapped := fun r' rest heq hi ↦ by
    obtain ⟨rfl, rfl⟩ := Worker.delivering.inj heq
    exact h.current hi r.began (by rw [hw]; rfl)
  result := h.result
  answered := h.answered

theorem deliver (h : AnsweredBy i Q s) {r : ScanResult R} {j : ℕ} {rest : List ℕ}
    (hw : s.worker = .delivering r (j :: rest)) :
    AnsweredBy i Q { s with
      worker := .delivering r rest
      waiter := Function.update s.waiter j ((s.waiter j).onScanComplete r)
      clock := s.clock + 1 } where
  busy := h.busy
  current := fun _ ↦ nofun
  next := fun hi _ b hb ↦ h.next hi (by rw [hw]; rfl) b (Nat.le_of_succ_le hb)
  swapped := fun r' rest' heq hi ↦ by
    obtain ⟨rfl, rfl⟩ := Worker.delivering.inj heq
    exact h.swapped r _ hw (List.mem_cons_of_mem _ hi)
  result := fun r' hr ↦ by
    replace hr : (Function.update s.waiter j ((s.waiter j).onScanComplete r) i).result = some r' :=
      hr
    rcases eq_or_ne i j with rfl | hne
    · rw [Function.update_self] at hr
      obtain rfl : r = r' := Option.some.inj hr
      exact h.swapped r _ hw List.mem_cons_self
    · rw [Function.update_of_ne hne] at hr
      exact h.result r' hr
  answered := h.answered

/-- **Every step keeps to it.** -/
theorem moves (h : AnsweredBy i Q s) (hmove : Moves fault s s') : AnsweredBy i Q s' := by
  rcases hmove with ⟨j, hj⟩ | ⟨j, hj⟩ | ⟨j, r, freed, hj, hr, -⟩ | ⟨hw, -⟩ | ⟨hw⟩ | ⟨hw⟩ |
    ⟨w, hway, hbegan⟩ | ⟨r, hw⟩ | ⟨r, j, rest, hw⟩ | ⟨r, hw⟩ | -
  · have hne : i ≠ j := fun heq ↦ h.busy (heq ▸ hj)
    refine h.setHandler (fun hi ↦ ?_) nofun rfl fun _ ↦ nofun
    exact (List.mem_append.1 hi).resolve_right fun hmem ↦ hne (List.mem_singleton.1 hmem)
  · exact h.setHandler id nofun rfl fun _ ↦ nofun
  · refine h.setHandler id nofun ?_ ?_
    · rcases eq_or_ne i j with rfl | hne
      · rw [Function.update_self]
      · rw [Function.update_of_ne hne]
    · -- the answer is what the waiter was given
      rintro rfl r' heq
      exact h.result r' (hr r' (Handler.answered.inj heq))
  · exact h.setWorker (fun _ ↦ nofun) (fun _ ↦ by rw [hw]; rfl) nofun
  · exact h.setWorker (fun _ ↦ nofun) (fun _ ↦ by rw [hw]; rfl) nofun
  · refine h.setWorker (fun hi b hb ↦ ?_) nofun nofun
    obtain rfl : s.clock = b := Option.some.inj hb
    exact h.next hi (by rw [hw]; rfl) _ (Nat.le_refl _)
  · refine h.setWorker (fun hi ↦ hbegan ▸ h.current hi) (fun hnone ↦ hbegan ▸ hnone) ?_
    rintro r rest rfl -
    rw [Worker.UnderWay, ← hbegan] at hway
    cases hway
  · exact h.swap hw
  · exact h.deliver hw
  · exact h.setWorker (fun _ ↦ nofun) (fun _ ↦ by rw [hw]; rfl) nofun
  · exact ⟨h.busy, h.current, fun hi hnone b hb ↦ h.next hi hnone b (Nat.le_of_succ_le hb),
      h.swapped, h.result, h.answered⟩

end AnsweredBy

theorem step_register {fault : Fault} {s s' : State R} {i : ℕ}
    (h : step fault s (.register i) = some s') :
    s.handler i = .idle ∧ s' = { s with
      listeners := s.listeners ++ [i]
      handler := Function.update s.handler i .registered
      clock := s.clock + 1 } := by
  obtain ⟨s₁, hact, rfl⟩ := Option.map_eq_some_iff.1 h
  rw [act] at hact
  split at hact
  · next hi =>
    obtain rfl := Option.some.inj hact
    exact ⟨hi, rfl⟩
  · cases hact

/-- A request that registers is answered by the scan that is under way, or by one that begins
later. -/
theorem AnsweredBy.register {s : State R} {i : ℕ} (hinv : Inv s) (hi : s.handler i = .idle) :
    AnsweredBy i (fun b ↦ s.worker.began? = some b ∨ s.worker.began? = none ∧ s.clock < b) { s with
      listeners := s.listeners ++ [i]
      handler := Function.update s.handler i .registered
      clock := s.clock + 1 } where
  busy := by
    show Function.update s.handler i .registered i ≠ .idle
    rw [Function.update_self]
    nofun
  current := fun _ b hb ↦ Or.inl hb
  next := fun _ hnone b hb ↦ Or.inr ⟨hnone, hb⟩
  swapped := fun r rest hw hmem ↦ by
    replace hw : s.worker = .delivering r rest := hw
    refine absurd (List.mem_append_right _ ?_) (hinv.not_mem_of_idle hi)
    rw [hw]
    exact hmem
  result := fun r hr ↦ by
    replace hr : (s.waiter i).result = some r := hr
    rw [hinv.fresh i (by rw [hi]; rfl)] at hr
    cases hr
  answered := fun r hr ↦ by
    replace hr : Function.update s.handler i .registered i = .answered (some r) := hr
    rw [Function.update_self] at hr
    cases hr

/-- **A request is answered by the next scan to finish.** In every interleaving, if `handle_scan`
answers with a result, then its `collect_inventory` began after the request registered its waiter
exactly if no scan was under way at that moment; otherwise the result is that of the scan that was.
-/
theorem answer_fresh_iff {fault : Fault} {s₀ s : State R} {i : ℕ} {rest : List (Action R)}
    {r : ScanResult R} (hreach : Reachable fault s₀)
    (hrun : Machine.run (step fault) s₀ (.register i :: rest) = some s)
    (hanswer : s.handler i = .answered (some r)) :
    (s₀.clock < r.began ↔ ¬ s₀.worker.UnderWay) ∧
      (s₀.worker.UnderWay → s₀.worker.began? = some r.began) := by
  rw [Machine.run_cons, Option.bind_eq_some_iff] at hrun
  obtain ⟨s₁, hfirst, hrest⟩ := hrun
  obtain ⟨hi, rfl⟩ := step_register hfirst
  have hall := Machine.run_invariant (fun _ hinv hstep ↦ hinv.moves (moves_of_step hstep)) rest
    (AnsweredBy.register hreach.inv hi) hrest
  rcases hall.answered r hanswer with hsome | ⟨hnone, hlt⟩
  · have hway : s₀.worker.UnderWay := by rw [Worker.UnderWay, hsome]; rfl
    have hpast := hreach.inv.past r.began hsome
    exact ⟨iff_of_false (Nat.lt_asymm hpast) (not_not_intro hway), fun _ ↦ hsome⟩
  · have hway : ¬ s₀.worker.UnderWay := by
      rw [Worker.UnderWay, hnone]
      exact Bool.false_ne_true
    exact ⟨iff_of_true hlt hway, fun hunder ↦ absurd hunder hway⟩

/-- The worker has woken up but not begun to collect when the request comes: a fresh scan. -/
theorem answer_fresh_early_request :
    ∃ s₀ s : State ℕ, ∃ r, Machine.run (step .none) start [.wake] = some s₀ ∧
      Machine.run (step .none) s₀ [.register 0, .collect, .request 0, .store 7, .record, .swap,
        .deliver, .answer 0] = some s ∧
      s.handler 0 = .answered (some r) ∧ (s₀.clock < r.began ↔ ¬ s₀.worker.UnderWay) ∧
        (s₀.worker.UnderWay → s₀.worker.began? = some r.began) := by
  have hanswer : ((Machine.run (step .none)
      ((Machine.run (step .none) (start : State ℕ) [.wake]).get (by decide))
      [.register 0, .collect, .request 0, .store 7, .record, .swap, .deliver, .answer 0]).get
        (by decide)).handler 0 = .answered (some ⟨7, 2⟩) := by decide
  exact ⟨_, _, _, (Option.some_get _).symm, (Option.some_get _).symm, hanswer,
    answer_fresh_iff (Machine.reachable_of_isSome _) (Option.some_get _).symm hanswer⟩

/-- A request that comes while the worker collects is answered with that scan, which began before.
-/
theorem scan_under_way_answers_request :
    ∃ s₀ s : State ℕ, ∃ r, Machine.run (step .none) start [.wake, .collect] = some s₀ ∧
      Machine.run (step .none) s₀ [.register 0, .request 0, .store 7, .record, .swap, .deliver,
        .answer 0] = some s ∧
      s.handler 0 = .answered (some r) ∧ r.began < s₀.clock :=
  ⟨_, _, ⟨7, 1⟩, (Option.some_get (by decide)).symm, (Option.some_get (by decide)).symm, by decide,
    by decide⟩

end NanoSensor.Agent
