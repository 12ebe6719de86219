import Mathlib.Data.Int.Notation
import NanoSensor.Foundation.Machine

/-!
# What the service control manager is told

`src/service_windows.cpp` runs on two threads. `service_main` reports START_PENDING and RUNNING,
runs the agent and reports STOPPED. `control_handler` runs on the thread of the dispatcher when a
control arrives: for STOP and SHUTDOWN it reports STOP_PENDING and then sets the flag that the agent
waits for. Both fill in the one record `g_status`, field by field, and hand it to
`SetServiceStatus`, and there is no lock. The manager delivers STOP and SHUTDOWN only to a service
whose last report accepts them.

A `Thread` here is what it has still to do, one access to shared memory after the other, and a run
is any interleaving of the two. What keeps them apart is the order in which the handler works: it is
done with the record before it sets the flag, and `service_main` takes the record up again only when
it has seen the flag. So the threads take turns (`Turn`), and what the one that has the record has
left to do completes the reports. That is so if the agent starts. If it does not, the body returns
at once, and `service_main` and the handler write the record at the same time: `reports_legal_iff`.

Registering the handler is taken to succeed.
-/

namespace NanoSensor.Service

/-- `dwCurrentState`. -/
inductive CurrentState
  | stopped
  | startPending
  | stopPending
  | running
  deriving DecidableEq

/-- `SERVICE_STATUS`, without the type of the service, which is the same in all reports. -/
structure Status where
  currentState : CurrentState
  win32ExitCode : ℕ
  waitHint : ℕ
  /-- `dwControlsAccepted` is `SERVICE_ACCEPT_STOP | SERVICE_ACCEPT_SHUTDOWN`, or 0. -/
  acceptsStop : Bool
  checkPoint : ℕ
  deriving DecidableEq

/-- An access to what the threads share. -/
inductive Instr
  | setCurrentState (state : CurrentState)
  | setWin32ExitCode
  | setWaitHint (ms : ℕ)
  | setControlsAccepted (state : CurrentState)
  /-- With the static `checkpoint`, which is counted up in the pending states. -/
  | setCheckPoint (state : CurrentState)
  /-- `SetServiceStatus`. -/
  | report
  /-- `g_stop.store(true)`. -/
  | setStop
  /-- The loop of the body, until `stop_requested()`. -/
  | awaitStop
  /-- The body returns. -/
  | setExitCode (code : ℤ)
  deriving DecidableEq

/-- What a thread has still to do. -/
abbrev Thread :=
  List Instr

/-- `report_status`. -/
def reportStatus (state : CurrentState) (waitHintMs : ℕ) : Thread :=
  [.setCurrentState state, .setWin32ExitCode, .setWaitHint waitHintMs, .setControlsAccepted state,
    .setCheckPoint state, .report]

/-- The body that `cmd_run` gives to `run`: it returns at once if the agent does not start. -/
def body (starts : Bool) : Thread :=
  if starts then [.awaitStop, .setExitCode 0] else [.setExitCode 1]

/-- `service_main`. -/
def serviceMain (starts : Bool) : Thread :=
  reportStatus .startPending 5000 ++ reportStatus .running 0 ++ body starts ++
    reportStatus .stopped 0

/-- A control. -/
inductive Control
  | stop
  | shutdown
  | interrogate
  deriving DecidableEq

/-- `control_handler`. -/
def controlHandler : Control → Thread
  | .stop | .shutdown => reportStatus .stopPending 30000 ++ [.setStop]
  | .interrogate => []

/-- The process, and what the manager was told. -/
structure Process where
  main : Thread
  handler : Thread
  /-- `g_status`. -/
  status : Status
  checkpoint : ℕ
  stop : Bool
  exitCode : ℤ
  reported : List Status
  deriving DecidableEq

/-- The process when `service_main` is called. -/
def Process.start (starts : Bool) : Process where
  main := serviceMain starts
  handler := []
  status := ⟨.stopped, 0, 0, false, 0⟩
  checkpoint := 1
  stop := false
  exitCode := 0
  reported := []

/-- One access. -/
def Instr.exec (p : Process) : Instr → Option Process
  | .setCurrentState state => some { p with status := { p.status with currentState := state } }
  | .setWin32ExitCode => some { p with status := { p.status with win32ExitCode := 0 } }
  | .setWaitHint ms => some { p with status := { p.status with waitHint := ms } }
  | .setControlsAccepted state =>
    some { p with status := { p.status with acceptsStop := state = .running } }
  | .setCheckPoint state =>
    if state = .running ∨ state = .stopped then
      some { p with status := { p.status with checkPoint := 0 } }
    else
      some { p with
        status := { p.status with checkPoint := p.checkpoint }
        checkpoint := p.checkpoint + 1 }
  | .report => some { p with reported := p.reported ++ [p.status] }
  | .setStop => some { p with stop := true }
  | .awaitStop => if p.stop then some p else none
  | .setExitCode code => some { p with exitCode := code }

/-- The manager delivers the control. -/
def Process.accepts (p : Process) : Control → Bool
  | .stop | .shutdown => p.reported.getLast?.any Status.acceptsStop
  | .interrogate => true

/-- Who takes the next step. -/
inductive Action
  | main
  | handler
  | control (c : Control)
  deriving DecidableEq

/-- One step. The dispatcher has one thread, so a control waits for the one before it. -/
def Process.step (p : Process) : Action → Option Process
  | .main =>
    match p.main with
    | [] => none
    | i :: rest => i.exec { p with main := rest }
  | .handler =>
    match p.handler with
    | [] => none
    | i :: rest => i.exec { p with handler := rest }
  | .control c =>
    if p.handler = [] ∧ p.accepts c then some { p with handler := controlHandler c } else none

/-! ### The protocol -/

/-- A report in which all fields belong together. -/
def report (state : CurrentState) (checkPoint waitHint : ℕ) : Status :=
  ⟨state, 0, waitHint, state = .running, checkPoint⟩

/-- The reports of a service that is stopped by the manager. -/
def stoppedByManager : List Status :=
  [report .startPending 1 5000, report .running 0 0, report .stopPending 2 30000,
    report .stopped 0 0]

/-- The reports of a service that stops by itself. -/
def stoppedByItself : List Status :=
  [report .startPending 1 5000, report .running 0 0, report .stopped 0 0]

/-- What the manager has been told is the beginning of one of the two, and all of it when both
threads are done. -/
def Process.Legal (p : Process) : Prop :=
  (p.reported <+: stoppedByManager ∨ p.reported <+: stoppedByItself) ∧
    (p.main = [] → p.handler = [] → p.reported = stoppedByManager ∨ p.reported = stoppedByItself)

instance (p : Process) : Decidable p.Legal :=
  inferInstanceAs (Decidable (_ ∧ _))

/-! ### What a thread has left -/

/-- What the process comes to when a thread does these accesses in one go. -/
def settled (left : Thread) (p : Process) : Process :=
  left.foldl (fun p i ↦ (i.exec p).getD p) p

section Settled

variable {i : Instr} {left rest : Thread} {p p' : Process}

theorem settled_append (left left' : Thread) (p : Process) :
    settled (left ++ left') p = settled left' (settled left p) :=
  List.foldl_append

/-- **What `report_status` reports**, whatever was in the record before, if no other thread writes
there meanwhile. -/
theorem settled_reportStatus (state : CurrentState) (waitHintMs : ℕ) (p : Process) :
    (settled (reportStatus state waitHintMs) p).reported =
        p.reported ++ [report state
          (if state = .running ∨ state = .stopped then 0 else p.checkpoint) waitHintMs] ∧
      (settled (reportStatus state waitHintMs) p).checkpoint =
        p.checkpoint + if state = .running ∨ state = .stopped then 0 else 1 := by
  cases state <;> exact ⟨rfl, rfl⟩

/-- No access looks at what the threads have still to do. -/
theorem exec_main (i : Instr) (p : Process) (m : Thread) :
    i.exec { p with main := m } = (i.exec p).map ({ · with main := m }) := by
  cases i <;> simp only [Instr.exec, Option.map_some] <;> split <;> rfl

theorem exec_handler (i : Instr) (p : Process) (m : Thread) :
    i.exec { p with handler := m } = (i.exec p).map ({ · with handler := m }) := by
  cases i <;> simp only [Instr.exec, Option.map_some] <;> split <;> rfl

theorem settled_main (left : Thread) (p : Process) (m : Thread) :
    settled left { p with main := m } = { settled left p with main := m } := by
  induction left generalizing p with
  | nil => rfl
  | cons i left ih =>
    show settled left ((i.exec { p with main := m }).getD _) = _
    rw [exec_main]
    show _ = { settled left ((i.exec p).getD p) with main := m }
    rcases i.exec p with - | q
    · exact ih p
    · exact ih q

theorem settled_handler (left : Thread) (p : Process) (m : Thread) :
    settled left { p with handler := m } = { settled left p with handler := m } := by
  induction left generalizing p with
  | nil => rfl
  | cons i left ih =>
    show settled left ((i.exec { p with handler := m }).getD _) = _
    rw [exec_handler]
    show _ = { settled left ((i.exec p).getD p) with handler := m }
    rcases i.exec p with - | q
    · exact ih p
    · exact ih q

/-- What one access changes beside the record. -/
theorem exec_cases (h : i.exec p = some p') :
    p'.main = p.main ∧ p'.handler = p.handler ∧ (i ≠ .setStop → p'.stop = p.stop) ∧
      p'.reported = p.reported ++ if i = .report then [p.status] else [] := by
  cases i with
  | awaitStop =>
    rw [Instr.exec] at h
    split at h
    · cases h
      simp
    · cases h
  | setCheckPoint state =>
    rw [Instr.exec] at h
    split at h <;> · cases h; simp
  | setCurrentState | setWin32ExitCode | setWaitHint | setControlsAccepted | report | setStop
  | setExitCode => cases h; simp

/-- A thread that goes on comes to the same. -/
theorem settled_of_step_main (h : i.exec { p with main := rest } = some p') :
    p'.main = rest ∧ p'.handler = p.handler ∧ (i ≠ .setStop → p'.stop = p.stop) ∧
      ∀ left, settled left p' = { settled (i :: left) p with main := rest } := by
  obtain ⟨hmain, hhandler, hstop, -⟩ := exec_cases h
  refine ⟨hmain, hhandler, hstop, fun left ↦ ?_⟩
  rw [exec_main] at h
  obtain ⟨q, hq, rfl⟩ := Option.map_eq_some_iff.1 h
  rw [settled_main]
  show _ = { settled left ((i.exec p).getD p) with main := rest }
  rw [hq]
  rfl

theorem settled_of_step_handler (h : i.exec { p with handler := rest } = some p') :
    p'.main = p.main ∧ p'.handler = rest ∧ (i ≠ .setStop → p'.stop = p.stop) ∧
      ∀ left, settled left p' = { settled (i :: left) p with handler := rest } := by
  obtain ⟨hmain, hhandler, hstop, -⟩ := exec_cases h
  refine ⟨hmain, hhandler, hstop, fun left ↦ ?_⟩
  rw [exec_handler] at h
  obtain ⟨q, hq, rfl⟩ := Option.map_eq_some_iff.1 h
  rw [settled_handler]
  show _ = { settled left ((i.exec p).getD p) with handler := rest }
  rw [hq]
  rfl

/-- What was reported stays reported, and there is one report more for every `SetServiceStatus`. -/
theorem reported_settled (left : Thread) (p : Process) :
    p.reported <+: (settled left p).reported ∧
      (settled left p).reported.length = p.reported.length + left.count .report := by
  induction left generalizing p with
  | nil => exact ⟨List.prefix_rfl, rfl⟩
  | cons i left ih =>
    show _ <+: (settled left ((i.exec p).getD p)).reported ∧
      (settled left ((i.exec p).getD p)).reported.length = _
    rcases hexec : i.exec p with - | q
    · have hne : i ≠ .report := by
        rintro rfl
        cases hexec
      rw [Option.getD_none, List.count_cons_of_ne hne]
      exact ih p
    · obtain ⟨-, -, -, hreported⟩ := exec_cases hexec
      obtain ⟨hbegins, hlength⟩ := ih q
      rw [Option.getD_some, hlength, List.count_cons, hreported]
      refine ⟨(hreported ▸ List.prefix_append _ _).trans hbegins, ?_⟩
      by_cases hi : i = .report
      · simp [hi]
        omega
      · simp [hi]

end Settled

/-! ### Who has the record -/

/-- `service_main` up to the call of the body. -/
def announce : Thread :=
  reportStatus .startPending 5000 ++ reportStatus .running 0

/-- `service_main` from there on, when the agent starts. -/
def waitAndStop : Thread :=
  body true ++ reportStatus .stopped 0

/-- The reports before a stop, and those before the last one. -/
def announced : List Status :=
  [report .startPending 1 5000, report .running 0 0]

def stopAnnounced : List Status :=
  announced ++ [report .stopPending 2 30000]

/-- At every moment one thread has the record to itself: `service_main` until it waits, then the
handler until it sets the flag, then `service_main` again. What is left for it to do completes the
reports. -/
inductive Turn (p : Process) : Prop
  | announcing (left : Thread) (hmain : p.main = left ++ waitAndStop) (hleft : left <:+ announce)
      (hhandler : p.handler = []) (hstop : p.stop = false)
      (hreports : (settled left p).reported = announced)
      (hcheckpoint : (settled left p).checkpoint = 2)
  | stopping (left : Thread) (hmain : p.main = waitAndStop)
      (hhandler : p.handler = left ++ [.setStop])
      (hleft : left <:+ reportStatus .stopPending 30000) (hstop : p.stop = false)
      (hreports : (settled left p).reported = stopAnnounced)
  | finishing (hmain : p.main <:+ waitAndStop) (hhandler : p.handler = []) (hstop : p.stop = true)
      (hreports : (settled p.main p).reported = stoppedByManager)
      (hbegun : stopAnnounced <+: p.reported)

namespace Turn

variable {p p' : Process}

theorem start : Turn (Process.start true) :=
  .announcing announce rfl List.suffix_rfl rfl rfl rfl rfl

/-- No access of `report_status` is the one that sets the flag. -/
theorem ne_setStop {i : Instr} {state : CurrentState} {waitHintMs : ℕ}
    (h : i ∈ reportStatus state waitHintMs) : i ≠ .setStop := by
  rintro rfl
  simp [reportStatus] at h

theorem step_main (h : Turn p) (hstep : p.step .main = some p') : Turn p' := by
  cases h with
  | announcing left hmain hleft hhandler hstop hreports hcheckpoint =>
    rw [Process.step, hmain] at hstep
    rcases left with - | ⟨i, left⟩
    · -- the flag is not set
      simp [waitAndStop, body, Instr.exec, hstop] at hstep
    · obtain ⟨hmain', hhandler', hstop', hsettled⟩ := settled_of_step_main hstep
      have hi : i ≠ .setStop := by
        have hmem := hleft.subset List.mem_cons_self
        rcases List.mem_append.1 hmem with hmem | hmem
        · exact ne_setStop hmem
        · exact ne_setStop hmem
      refine .announcing left hmain' ((List.suffix_cons i left).trans hleft)
        (hhandler'.trans hhandler) ((hstop' hi).trans hstop) ?_ ?_
      · rw [hsettled]
        exact hreports
      · rw [hsettled]
        exact hcheckpoint
  | stopping left hmain hhandler hleft hstop hreports =>
    rw [Process.step, hmain] at hstep
    simp [waitAndStop, body, Instr.exec, hstop] at hstep
  | finishing hmain hhandler hstop hreports hbegun =>
    rw [Process.step] at hstep
    split at hstep
    · cases hstep
    · next i rest heq =>
      rw [heq] at hmain hreports
      obtain ⟨hmain', hhandler', hstop', hsettled⟩ := settled_of_step_main hstep
      obtain ⟨-, -, -, hreported⟩ := exec_cases hstep
      have hi : i ≠ .setStop := by
        rintro rfl
        exact absurd (hmain.subset List.mem_cons_self) (by decide)
      refine .finishing ?_ (hhandler'.trans hhandler) ((hstop' hi).trans hstop) ?_ ?_
      · rw [hmain']
        exact (List.suffix_cons i rest).trans hmain
      · rw [hmain', hsettled]
        exact hreports
      · rw [hreported]
        exact hbegun.trans (List.prefix_append _ _)

theorem step_handler (h : Turn p) (hstep : p.step .handler = some p') : Turn p' := by
  cases h with
  | announcing left hmain hleft hhandler hstop hreports hcheckpoint =>
    rw [Process.step, hhandler] at hstep
    cases hstep
  | finishing hmain hhandler hstop hreports hbegun =>
    rw [Process.step, hhandler] at hstep
    cases hstep
  | stopping left hmain hhandler hleft hstop hreports =>
    rw [Process.step, hhandler] at hstep
    rcases left with - | ⟨i, left⟩
    · -- the flag is set, and `service_main` has the rest to do
      replace hreports : p.reported = stopAnnounced := hreports
      obtain rfl := Option.some.inj hstep
      refine .finishing ?_ rfl rfl ?_ ?_
      · exact hmain ▸ List.suffix_rfl
      · show (settled p.main _).reported = _
        rw [hmain, waitAndStop, settled_append, (settled_reportStatus _ _ _).1]
        show p.reported ++ _ = _
        rw [hreports]
        rfl
      · exact hreports ▸ List.prefix_rfl
    · obtain ⟨hmain', hhandler', hstop', hsettled⟩ := settled_of_step_handler hstep
      have hi : i ≠ .setStop := ne_setStop (hleft.subset List.mem_cons_self)
      refine .stopping left (hmain'.trans hmain) hhandler' ((List.suffix_cons i left).trans hleft)
        ((hstop' hi).trans hstop) ?_
      rw [hsettled]
      exact hreports

/-- A stop is delivered only when RUNNING is reported and nothing after it. -/
theorem eq_nil_of_accepts {left : Thread} (hleft : left <:+ announce)
    (hreports : (settled left p).reported = announced)
    (haccepts : p.reported.getLast?.any Status.acceptsStop = true) : left = [] := by
  obtain ⟨hbegins, hlength⟩ := reported_settled left p
  rw [hreports] at hbegins hlength
  by_contra hne
  have hreport : Instr.report ∈ left := by
    obtain ⟨before, heq⟩ := hleft
    have hlast : (before ++ left).getLast? = some .report := by
      rw [heq]
      rfl
    rw [List.getLast?_append_of_ne_nil _ hne] at hlast
    exact List.mem_of_getLast? hlast
  have hpos := List.count_pos_iff.2 hreport
  -- the one report before the last accepts nothing
  rcases hp : p.reported with - | ⟨r, - | ⟨r', rest⟩⟩
  · rw [hp] at haccepts
    cases haccepts
  · rw [hp] at haccepts hbegins
    obtain ⟨rfl, -⟩ := List.cons_prefix_cons.1 hbegins
    cases haccepts
  · rw [hp] at hlength
    simp only [announced, List.length_cons, List.length_nil] at hlength
    omega

/-- Whoever has the record when a stop is delivered, the handler has it then. -/
theorem deliver_stop (h : Turn p) (hidle : p.handler = [])
    (haccepts : p.reported.getLast?.any Status.acceptsStop = true) :
    Turn { p with handler := reportStatus .stopPending 30000 ++ [.setStop] } := by
  cases h with
  | announcing left hmain hleft hhandler hstop hreports hcheckpoint =>
    obtain rfl := eq_nil_of_accepts hleft hreports haccepts
    refine .stopping _ hmain rfl List.suffix_rfl hstop ?_
    replace hreports : p.reported = announced := hreports
    replace hcheckpoint : p.checkpoint = 2 := hcheckpoint
    rw [(settled_reportStatus _ _ _).1]
    show p.reported ++ [report .stopPending p.checkpoint 30000] = _
    rw [hreports, hcheckpoint]
    rfl
  | stopping left hmain hhandler hleft hstop hreports =>
    rw [hidle] at hhandler
    exact absurd hhandler.symm (by simp)
  | finishing hmain hhandler hstop hreports hbegun =>
    -- neither STOP_PENDING nor STOPPED accepts anything
    have hends := hreports ▸ (reported_settled p.main p).1
    obtain ⟨more, hmore⟩ := hbegun
    obtain ⟨rest, hrest⟩ := hends
    rw [← hmore, List.append_assoc] at hrest
    have hone : more ++ rest = [report .stopped 0 0] := List.append_cancel_left hrest
    rw [← hmore] at haccepts
    rcases more with - | ⟨r, more⟩
    · cases haccepts
    · obtain ⟨rfl, hnil⟩ := List.cons.inj hone
      obtain ⟨rfl, -⟩ := List.append_eq_nil_iff.1 hnil
      cases haccepts

theorem step_control (c : Control) (h : Turn p) (hstep : p.step (.control c) = some p') :
    Turn p' := by
  rw [Process.step] at hstep
  split at hstep
  · next hcontrol =>
    obtain ⟨hidle, haccepts⟩ := hcontrol
    obtain rfl := Option.some.inj hstep
    cases c with
    | stop => exact h.deliver_stop hidle haccepts
    | shutdown => exact h.deliver_stop hidle haccepts
    | interrogate =>
      have hsame : { p with handler := controlHandler .interrogate } = p := by
        rw [controlHandler, ← hidle]
      exact hsame ▸ h
  · cases hstep

/-- **The threads take turns**, in every interleaving. -/
theorem of_reachable (h : Machine.Reachable Process.step (Process.start true) p) : Turn p := by
  refine h.invariant start fun a hp hstep ↦ ?_
  cases a with
  | main => exact hp.step_main hstep
  | handler => exact hp.step_handler hstep
  | control c => exact hp.step_control c hstep

theorem legal (h : Turn p) : p.Legal := by
  cases h with
  | announcing left hmain hleft hhandler hstop hreports hcheckpoint =>
    have hbegins := hreports ▸ (reported_settled left p).1
    refine ⟨Or.inl (hbegins.trans (by decide)), fun hnil ↦ ?_⟩
    rw [hmain] at hnil
    exact absurd (List.append_eq_nil_iff.1 hnil).2 (by decide)
  | stopping left hmain hhandler hleft hstop hreports =>
    have hbegins := hreports ▸ (reported_settled left p).1
    refine ⟨Or.inl (hbegins.trans (by decide)), fun hnil ↦ ?_⟩
    exact absurd (hmain.symm.trans hnil) (by decide)
  | finishing hmain hhandler hstop hreports hbegun =>
    have hbegins := hreports ▸ (reported_settled p.main p).1
    refine ⟨Or.inl hbegins, fun hnil _ ↦ Or.inl ?_⟩
    rw [hnil] at hreports
    exact hreports

end Turn

/-- A run of a service whose agent does not start. A stop arrives as soon as RUNNING is reported.
`service_main` has written STOPPED into the record when the handler writes its own report there and
hands it over; what `service_main` hands over then says STOP_PENDING. -/
def race : List Action :=
  List.replicate 12 Action.main ++ Action.control .stop :: (List.replicate 2 Action.main ++
    List.replicate 7 Action.handler ++ List.replicate 5 Action.main)

/-- Both threads are done, and the manager was never told that the service has stopped. -/
example : (Machine.run Process.step (Process.start false) race).any fun p ↦
    p.main = [] ∧ p.handler = [] ∧ ∀ r ∈ p.reported, r.currentState ≠ .stopped := by
  decide +kernel

/-- **The manager is told what it may be told, in every interleaving, exactly if the agent starts.**
Then every report has the fields that belong together, STOP_PENDING comes before STOPPED, nothing
comes after STOPPED, and STOPPED is not lost. -/
theorem reports_legal_iff (starts : Bool) :
    (∀ p, Machine.Reachable Process.step (Process.start starts) p → p.Legal) ↔ starts = true := by
  constructor
  · intro h
    cases starts with
    | true => rfl
    | false =>
      have hsome : (Machine.run Process.step (Process.start false) race).isSome = true := by
        decide +kernel
      have hbad : ¬ ((Machine.run Process.step (Process.start false) race).get hsome).Legal := by
        decide +kernel +revert
      exact absurd (h _ (Machine.reachable_of_isSome hsome)) hbad
  · rintro rfl p hp
    exact (Turn.of_reachable hp).legal

end NanoSensor.Service
