import NanoSensor.Agent.Requests
import NanoSensor.Foundation.Locks

/-!
# The locks of the agent

Which locks the threads of `src/agent.cpp` take and when: the worker, any number of pipe threads,
each with a request of its own, the thread of the watchdog, and the one that calls `Agent::stop`.
Each function is given by its control flow, under its own name; what it does with the data is left
out.

A `Watchdog::Scope` takes the watchdog's mutex twice, when it is made and when it is destroyed, and
not in between; the function that has one is written as `enter`, a call of the rest, and `leave`.
The callback `on_inventory` comes from outside and has no access to the mutexes.
-/

namespace NanoSensor.Agent

open Locks (Prog)

/-- The mutexes. A `ScanWaiter` has one of its own. -/
inductive Mutex
  | db
  | state
  | listeners
  | wake
  | watchdog
  | waiter (n : ℕ)
  deriving DecidableEq, Repr

/-- The threads. -/
inductive Thread
  | worker
  | handler (n : ℕ)
  | watchdog
  /-- The one that calls `Agent::stop`. -/
  | main
  deriving DecidableEq, Repr

/-- What a client can ask for. -/
inductive Command
  | ping
  | status
  | scan
  | findings
  | affected
  | dump
  | unknown
  deriving DecidableEq, Repr

/-- `{ std::lock_guard<std::mutex> lock(m); … }` around something that takes no lock. -/
def guarded (m : Mutex) : Prog Mutex :=
  .scope m .skip

/-! ### `Watchdog` and `ScanWaiter` -/

def watchdogEnter : Prog Mutex :=
  .call (guarded .watchdog)

def watchdogLeave : Prog Mutex :=
  .call (guarded .watchdog)

/-- A function with a `Watchdog::Scope` around its body. -/
def watched (body : Prog Mutex) : Prog Mutex :=
  .call (.block [watchdogEnter, .call body, watchdogLeave])

/-- `Watchdog::loop`; `on_hang` does not return. -/
def watchdogLoop : Prog Mutex :=
  .call (.scope .watchdog (.loop (.block
    [.wait .watchdog, .loop (.choice .skip (.abandon .watchdog))])))

def watchdogStop : Prog Mutex :=
  .call (guarded .watchdog)

def onScanComplete (n : ℕ) : Prog Mutex :=
  .call (guarded (.waiter n))

/-- `ScanWaiter::wait`. -/
def waiterWait (n : ℕ) : Prog Mutex :=
  .call (.scope (.waiter n) (.block [.loop (.wait (.waiter n)), .mayReturn]))

/-! ### The worker -/

def requestScan : Prog Mutex :=
  .call (guarded .wake)

/-- `write_db` takes no lock; it may return early. -/
def writeDb : Prog Mutex :=
  .call (.block [.mayReturn, .mayReturn])

/-- `worst_finding`, which ends the process if the fault is there. -/
def worstFinding : Fault → Prog Mutex
  | .workerCrash => .exit
  | .none | .useAfterFree | .deadlock => .skip

/-- What `run_scan` does with the database and the state. -/
def recordScan : Fault → Prog Mutex
  | .deadlock => .scope .db (.block [writeDb, guarded .state])
  | .none | .useAfterFree | .workerCrash => .block [.scope .db writeDb, guarded .state]

def runScan (fault : Fault) : Prog Mutex :=
  watched (.block [worstFinding fault, recordScan fault, guarded .listeners,
    .loop (.any onScanComplete)])

def workerLoop (fault : Fault) : Prog Mutex :=
  .call (.loop (.block
    [.scope .wake (.block [.loop (.wait .wake), .mayReturn]), runScan fault]))

/-! ### The requests -/

def handleStatus : Fault → Prog Mutex
  | .deadlock => .call (.scope .state (guarded .db))
  | .none | .useAfterFree | .workerCrash =>
    .call (.block [guarded .state, .tryScope .db .skip])

/-- `handle_scan` makes a waiter of its own; here it may be any. -/
def handleScan : Prog Mutex :=
  .call (.any fun n ↦ .block [guarded .listeners, requestScan, waiterWait n])

def handleFindings : Prog Mutex :=
  .call (.block [guarded .state, .mayReturn, .scope .db (.block [.mayReturn, .mayReturn])])

def handleAffected : Prog Mutex :=
  .call (.block [.mayReturn, .scope .db (.block [.mayReturn, .mayReturn])])

/-- `Agent::handle`. -/
def handle (fault : Fault) (cmd : Command) : Prog Mutex :=
  watched <| match cmd with
    | .ping | .dump | .unknown => .ret
    | .status => handleStatus fault
    | .scan => handleScan
    | .findings => handleFindings
    | .affected => handleAffected

/-- `Agent::stop`. -/
def agentStop : Prog Mutex :=
  .call (.block [guarded .wake, watchdogStop])

/-- The program of each thread, if the pipe threads get the requests `cmd`. -/
def program (fault : Fault) (cmd : ℕ → Command) : Thread → Prog Mutex
  | .worker => workerLoop fault
  | .handler n => handle fault (cmd n)
  | .watchdog => watchdogLoop
  | .main => agentStop

/-! ### Every function keeps the rule -/

@[simp]
theorem disciplined_guarded (m : Mutex) : (guarded m).Disciplined [] :=
  ⟨rfl, trivial⟩

theorem disciplined_watched {body : Prog Mutex} (h : body.Disciplined []) :
    (watched body).Disciplined [] := by
  refine Prog.disciplined_block.2 ?_
  simp only [List.forall_mem_cons]
  exact ⟨disciplined_guarded _, h, disciplined_guarded _, List.forall_mem_nil _⟩

/-- Waiting, and then hanging or not, is what the loop does with its own lock. -/
theorem disciplined_watchdogLoop : watchdogLoop.Disciplined [] := by
  refine ⟨rfl, Prog.disciplined_block.2 ?_⟩
  simp only [List.forall_mem_cons]
  exact ⟨rfl, ⟨trivial, rfl⟩, List.forall_mem_nil _⟩

theorem disciplined_waiterWait (n : ℕ) : (waiterWait n).Disciplined [] := by
  simp [waiterWait]

theorem disciplined_writeDb (held : List Mutex) : writeDb.Disciplined held := by
  simp [writeDb]

variable {fault : Fault}

theorem disciplined_worstFinding : (worstFinding fault).Disciplined [] := by
  cases fault with
  | none | useAfterFree | deadlock => trivial
  | workerCrash => rfl

/-- One lock after the other, unless the fault is there. -/
theorem disciplined_recordScan (h : fault ≠ .deadlock) : (recordScan fault).Disciplined [] := by
  have hnormal : (Prog.block [.scope .db writeDb, guarded .state]).Disciplined [] := by
    simp [disciplined_writeDb]
  cases fault with
  | none | useAfterFree | workerCrash => exact hnormal
  | deadlock => exact absurd rfl h

theorem disciplined_runScan (h : fault ≠ .deadlock) : (runScan fault).Disciplined [] := by
  refine disciplined_watched (Prog.disciplined_block.2 ?_)
  simp only [List.forall_mem_cons]
  exact ⟨disciplined_worstFinding, disciplined_recordScan h, disciplined_guarded _,
    fun n ↦ disciplined_guarded (.waiter n), List.forall_mem_nil _⟩

theorem disciplined_workerLoop (h : fault ≠ .deadlock) : (workerLoop fault).Disciplined [] := by
  simp [workerLoop, disciplined_runScan h]

theorem disciplined_handleStatus (h : fault ≠ .deadlock) :
    (handleStatus fault).Disciplined [] := by
  have hnormal : (Prog.block [guarded .state, .tryScope .db .skip]).Disciplined [] :=
    ⟨disciplined_guarded _, ⟨trivial, trivial⟩, trivial⟩
  cases fault with
  | none | useAfterFree | workerCrash => exact hnormal
  | deadlock => exact absurd rfl h

theorem disciplined_handleScan : handleScan.Disciplined [] := fun n ↦ by
  refine Prog.disciplined_block.2 ?_
  simp only [List.forall_mem_cons]
  exact ⟨disciplined_guarded _, disciplined_guarded _, disciplined_waiterWait n,
    List.forall_mem_nil _⟩

theorem disciplined_handleFindings : handleFindings.Disciplined [] := by
  simp [handleFindings]

theorem disciplined_handleAffected : handleAffected.Disciplined [] := by
  simp [handleAffected]

theorem disciplined_handle (h : fault ≠ .deadlock) (cmd : Command) :
    (handle fault cmd).Disciplined [] := by
  refine disciplined_watched ?_
  cases cmd with
  | ping => trivial
  | status => exact disciplined_handleStatus h
  | scan => exact disciplined_handleScan
  | findings => exact disciplined_handleFindings
  | affected => exact disciplined_handleAffected
  | dump => trivial
  | unknown => trivial

theorem disciplined_agentStop : agentStop.Disciplined [] :=
  ⟨disciplined_guarded _, disciplined_guarded _, trivial⟩

theorem disciplined_program (h : fault ≠ .deadlock) (cmd : ℕ → Command) :
    ∀ i, (program fault cmd i).Disciplined []
  | .worker => disciplined_workerLoop h
  | .handler n => disciplined_handle h (cmd n)
  | .watchdog => disciplined_watchdogLoop
  | .main => disciplined_agentStop

/-! ### The agent -/

/-- **The lock discipline of the agent.** Whatever the pipe threads are asked for and however the
threads are interleaved, a thread that is about to lock one of the mutexes holds none of them, and
no circle of threads wait for one another. -/
theorem lock_discipline (h : fault ≠ .deadlock) {cmd : ℕ → Command}
    {s : Locks.State Thread Mutex} (hreach : Locks.Reachable (program fault cmd) s) :
    (∀ i m m', Locks.wants (s.control i) = some m → s.owner m' ≠ some i) ∧
      ∀ i, ¬ Relation.TransGen s.WaitsFor i i :=
  ⟨fun _ _ _ ↦ hreach.not_holding_of_wants (disciplined_program h cmd),
    hreach.not_circular (disciplined_program h cmd)⟩

/-- The worker writes to the database, and a `findings` request waits for it. -/
theorem lock_discipline_findings_wait :
    ∃ s : Locks.State Thread Mutex, Locks.Reachable (program .none fun _ ↦ .findings) s ∧
      (Locks.wants (s.control (.handler 0)) = some .db ∧ s.owner .db = some .worker) ∧
      (∀ i m m', Locks.wants (s.control i) = some m → s.owner m' ≠ some i) ∧
        ∀ i, ¬ Relation.TransGen s.WaitsFor i i := by
  have hreach : Locks.Reachable (program .none fun _ ↦ .findings) _ :=
    Machine.reachable_of_isSome (show (Machine.run Locks.step (Locks.start _)
      (([0, 0, 0, 0, 0, 1, 0, 1] ++ List.replicate 18 0).map (Thread.worker, ·) ++
        (List.replicate 15 0 ++ [1, 0, 0]).map (Thread.handler 0, ·))).isSome = true by decide)
  exact ⟨_, hreach, by decide, lock_discipline (by decide) hreach⟩

/-- Nor does any thread wait for one that cannot go on. -/
theorem thread_goes_on (h : fault ≠ .deadlock) {cmd : ℕ → Command}
    {s : Locks.State Thread Mutex} (hreach : Locks.Reachable (program fault cmd) s) {i : Thread}
    (hbusy : s.control i ≠ []) :
    (Locks.step s (i, 0)).isSome = true ∨
      ∃ j, s.WaitsFor i j ∧ (Locks.step s (j, 0)).isSome = true :=
  hreach.goes_on (disciplined_program h cmd) hbusy

/-- With the fault, the worker takes `db_mu` before `state_mu` and a `status` request `state_mu`
before `db_mu`: each can come to hold what the other waits for. -/
theorem exists_circular_wait_of_deadlock :
    ∃ s : Locks.State Thread Mutex, Locks.Reachable (program .deadlock fun _ ↦ .status) s ∧
      s.WaitsFor .worker (.handler 0) ∧ s.WaitsFor (.handler 0) .worker := by
  have hreach : Locks.Reachable (program .deadlock fun _ ↦ .status) _ :=
    Machine.reachable_of_isSome (show (Machine.run Locks.step (Locks.start _)
      (([0, 0, 0, 0, 0, 1, 0, 1] ++ List.replicate 24 0).map (Thread.worker, ·) ++
        (List.replicate 11 0).map (Thread.handler 0, ·))).isSome = true by decide)
  exact ⟨_, hreach, ⟨.state, by decide⟩, ⟨.db, by decide⟩⟩

/-- **The rule is broken by that fault and no other.** -/
theorem not_circular_iff (fault : Fault) :
    (∀ cmd s, Locks.Reachable (program fault cmd) s → ∀ i, ¬ Relation.TransGen s.WaitsFor i i) ↔
      fault ≠ .deadlock := by
  refine ⟨?_, fun h cmd s hreach ↦ hreach.not_circular (disciplined_program h cmd)⟩
  rintro hall rfl
  obtain ⟨s, hreach, hto, hback⟩ := exists_circular_wait_of_deadlock
  exact hall _ s hreach .worker (.tail (.single hto) hback)

end NanoSensor.Agent
