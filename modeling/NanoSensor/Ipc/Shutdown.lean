import Mathlib.Algebra.BigOperators.Group.Finset.Basic
import Mathlib.Algebra.Order.BigOperators.Group.Finset
import NanoSensor.Ipc.Server

/-!
# Stopping the control pipe

`Server::stop` of `src/ipc_windows.cpp` has to get every thread of the server out of the call it is
blocked in. It does so with `CancelSynchronousIo`, which does nothing if the thread is not in a
call. For `accept_loop` it cancels again and again, and connects to the pipe itself. For the `serve`
threads it goes through `clients` once, and then joins them.

`State` is the server with what these calls see: whether a thread is in a call that may block, and
whether the client at the other end is still there. `accept_loop` can block in `ConnectNamedPipe`, a
`serve` thread in `ReadFile` and `WriteFile`. A thread in such a call takes no step: the call is
over when the client does what it waits for, or when `stop` cancels it. The handler returns,
whatever it is asked.

`stop_waits_for_clients` is what becomes of `stop` in every interleaving. The threads have a bounded
number of steps left, turns of the loop of `stop` that change nothing apart; as long as `stop` has
not returned one of them can go on by itself, unless a `serve` thread waits for a client; and when
`stop` has returned nothing is left open. But a `serve` thread may enter a call behind the one look
that `stop` has taken at it. Then `stop` does not return as long as that client does nothing.
-/

namespace NanoSensor.Ipc

/-- The thread is about to make a call that may block, or in it. -/
def Serve.blocks : Serve → Bool
  | .reading | .refusing | .responding | .draining => true
  | .handling | .closing | .returned | .done => false

/-- So for `accept_loop`, with `ConnectNamedPipe`. -/
def Acceptor.blocks : Acceptor → Bool
  | .connecting _ => true
  | _ => false

namespace Shutdown

/-- Where a thread is that has a call to make that may block. -/
inductive Io
  /-- Not in it yet. -/
  | outside
  /-- In it, and blocked. -/
  | inside
  /-- In it, and there is nothing more to wait for. -/
  | completed
  /-- In it, and it was cancelled. -/
  | cancelled
  deriving DecidableEq, Repr

namespace Io

/-- The call is made. -/
def enter (blocks : Bool) : Io :=
  if blocks then .inside else .completed

/-- The call can return like this. -/
def returns : Io → Outcome → Bool
  | .outside, _ | .inside, _ => false
  | .completed, _ => true
  | .cancelled, outcome => outcome = .failure

/-- The other end does what the call waits for. -/
def complete : Io → Io
  | .inside => .completed
  | o => o

/-- `CancelSynchronousIo`. -/
def cancel : Io → Io
  | .inside => .cancelled
  | o => o

/-- One turn of the loop in which `stop` waits for `accept_loop`: cancel its call, and connect to
the pipe, so that a call that was not made yet returns at once. -/
def poll (connects : Bool) : Io → Io
  | .outside => if connects then .completed else .outside
  | o => o.cancel

end Io

structure State where
  server : Ipc.State
  acceptIo : Io
  io : ℕ → Io
  /-- The client of an instance has not closed its end. -/
  attached : ℕ → Bool
  /-- The part of `clients` that the loop of `stop` has not come to. -/
  uncancelled : List ℕ

/-- What the client of an instance may do. -/
inductive ClientAct
  | write
  | read
  /-- It closes its end. -/
  | close
  deriving DecidableEq, Repr

/-- What the calls of a `serve` thread wait for: a read for a message, a write for room. -/
def ClientAct.ends : ClientAct → Serve → Bool
  | .write, .reading | .write, .draining | .read, .refusing | .read, .responding => true
  | .close, _ => true
  | _, _ => false

/-- Whose turn it is, and how its call ends; or, if the thread is about to make a call that may
block, whether it does. -/
inductive Action
  | accept (outcome : Outcome) (blocks : Bool)
  | serve (i : ℕ) (outcome : Outcome) (blocks : Bool)
  | stop
  /-- One turn of the loop in which `stop` waits for `acceptor_done`, and whether `CreateFileW` has
  got a connection. -/
  | poll (connects : Bool)
  /-- A client connects to the instance that `accept_loop` listens on. -/
  | arrive
  /-- The client of instance `i` does something. -/
  | client (i : ℕ) (act : ClientAct)
  deriving DecidableEq, Repr

/-- One step of `accept_loop`. -/
def acceptStep (s : State) (outcome : Outcome) (blocks : Bool) : Option State :=
  if s.server.acceptor.blocks = true ∧ s.acceptIo = .outside then
    some { s with acceptIo := .enter blocks }
  else if s.server.acceptor.blocks = true ∧ s.acceptIo.returns outcome = false then none
  else
    (Ipc.acceptStep s.server outcome).map fun t ↦ { s with server := t, acceptIo := .outside }

/-- One step of the `serve` thread of instance `i`. -/
def serveStep (s : State) (i : ℕ) (outcome : Outcome) (blocks : Bool) : Option State :=
  if (s.server.serve i).any Serve.blocks = true ∧ s.io i = .outside then
    -- no call waits for a client that has closed its end
    some { s with io := Function.update s.io i (.enter (blocks && s.attached i)) }
  else if (s.server.serve i).any Serve.blocks = true ∧ (s.io i).returns outcome = false then none
  else
    (Ipc.serveStep s.server i outcome).map fun t ↦
      { s with server := t, io := Function.update s.io i .outside }

/-- One step of `stop`, outside of its loop. -/
def stopStep (s : State) : Option State :=
  match s.server.stopper with
  | .waiting =>
    (Ipc.stopStep s.server).map fun t ↦ { s with server := t, uncancelled := s.server.clients }
  | .joined =>
    match s.uncancelled with
    | i :: rest =>
      some { s with io := Function.update s.io i (s.io i).cancel, uncancelled := rest }
    | [] => (Ipc.stopStep s.server).map fun t ↦ { s with server := t }
  | .running | .stopped => (Ipc.stopStep s.server).map fun t ↦ { s with server := t }

/-- One turn of its loop. -/
def pollStep (s : State) (connects : Bool) : Option State :=
  if s.server.stopper = .waiting ∧ s.server.acceptor ≠ .done then
    some { s with acceptIo := s.acceptIo.poll connects }
  else none

/-- The client of instance `i` does something. -/
def clientStep (s : State) (i : ℕ) (act : ClientAct) : Option State :=
  if s.attached i then
    some { s with
      io := Function.update s.io i
        (if (s.server.serve i).any act.ends then (s.io i).complete else s.io i)
      attached := Function.update s.attached i (decide (act ≠ .close)) }
  else none

def step (s : State) : Action → Option State
  | .accept outcome blocks => acceptStep s outcome blocks
  | .serve i outcome blocks => serveStep s i outcome blocks
  | .stop => stopStep s
  | .poll connects => pollStep s connects
  | .arrive => some { s with acceptIo := s.acceptIo.complete }
  | .client i act => clientStep s i act

def start : State where
  server := Ipc.start
  acceptIo := .outside
  io := fun _ ↦ .outside
  attached := fun _ ↦ true
  uncancelled := []

/-- `s` can be reached after `Server::start` has succeeded. -/
def Reachable (s : State) : Prop :=
  Machine.Reachable step start s

/-- The `serve` thread of instance `i` is blocked in a call, and `stop` has already been past it. -/
structure State.WaitsFor (s : State) (i : ℕ) : Prop where
  blocks : (s.server.serve i).any Serve.blocks = true
  inside : s.io i = .inside
  joined : s.server.stopper = .joined
  passed : i ∉ s.uncancelled

/-- A step of one of the threads. A turn of the loop of `stop` counts if it changes something for
`accept_loop`. -/
def State.isWork (s : State) : Action → Bool
  | .accept _ _ | .serve _ _ _ | .stop => true
  | .poll connects => s.acceptIo.poll connects ≠ s.acceptIo
  | .arrive | .client _ _ => false

end Shutdown

/-! ### How far the threads are from their ends -/

/-- How far a `serve` thread is. A call that may block takes three steps at most. -/
def Serve.rank : Serve → ℕ
  | .reading => 18
  | .handling => 15
  | .responding => 12
  | .refusing | .draining => 9
  | .closing => 6
  | .returned => 3
  | .done => 0

/-- How far `accept_loop` is once it is told to stop, with the thread it may still start. -/
def Acceptor.rank : Acceptor → ℕ
  | .sleeping _ _ => 48
  | .creating _ _ => 45
  | .failed _ _ => 42
  | .created _ _ _ => 39
  | .spawned _ _ => 16
  | .connecting _ | .reaping _ => 12
  | .returned _ _ | .loop _ => 9
  | .leaving _ => 6
  | .finished => 3
  | .done => 0

/-- The thread that `accept_loop` has started and not entered into `clients` yet. -/
def Acceptor.starting : Acceptor → Option ℕ
  | .spawned i _ => some i
  | _ => none

/-- What a step of `accept_loop` does to the other threads. -/
inductive AcceptEffect (s s' : State) : Prop
  /-- It goes on, and may join some that are done. -/
  | goOn (hserve : s'.serve = s.serve)
    (hclients : s'.clients = s.clients ∨ s'.clients = s.reap.clients)
    (hfresh : s'.fresh = s.fresh ∨ s'.fresh = s.fresh + 1)
    (hstarting : s.acceptor.starting = none ∧ s'.acceptor.starting = none)
    (hrank : s.stopping = true → s'.acceptor.rank + 3 ≤ s.acceptor.rank)
  /-- It starts one. -/
  | spawn (i : ℕ) (next? : Option ℕ) (ha : s.acceptor = .created i true next?)
    (ha' : s'.acceptor = .spawned i next?)
    (hserve : s'.serve = Function.update s.serve i (some .reading))
    (hclients : s'.clients = s.clients) (hfresh : s'.fresh = s.fresh)
  /-- It enters that one into `clients`. -/
  | enroll (i : ℕ) (next? : Option ℕ) (ha : s.acceptor = .spawned i next?)
    (ha' : s'.acceptor = .reaping next?) (hserve : s'.serve = s.serve)
    (hclients : s'.clients = s.clients ++ [i]) (hfresh : s'.fresh = s.fresh)

theorem acceptStep_cases {s s' : State} {outcome : Outcome} (h : acceptStep s outcome = some s') :
    s'.stopping = s.stopping ∧ s'.stopper = s.stopper ∧ s.acceptor ≠ .done ∧
      AcceptEffect s s' := by
  rw [acceptStep] at h
  split at h
  case h_5 =>
    next i c ha =>
    split at h
    all_goals
      obtain rfl := Option.some.inj h
      refine ⟨rfl, rfl, by simp [ha], .goOn rfl (Or.inl rfl) (by simp) ?_ ?_⟩
      all_goals simp [ha, Acceptor.starting, Acceptor.rank]
  case h_8 =>
    next i next? ha =>
    obtain rfl := Option.some.inj h
    exact ⟨rfl, rfl, by simp [ha], .spawn i next? ha rfl rfl rfl rfl⟩
  case h_10 =>
    next i next? ha =>
    obtain rfl := Option.some.inj h
    exact ⟨rfl, rfl, by simp [ha], .enroll i next? ha rfl rfl rfl rfl⟩
  case h_15 => cases h
  all_goals
    next ha =>
    obtain rfl := Option.some.inj h
    refine ⟨rfl, rfl, by simp [ha], .goOn rfl (by simp [State.closeHandle]) (Or.inl rfl) ?_ ?_⟩
    all_goals
      rcases hstop : s.stopping
      all_goals simp [ha, Acceptor.starting, Acceptor.rank]

theorem serveStep_cases {s s' : State} {i : ℕ} {outcome : Outcome}
    (h : serveStep s i outcome = some s') :
    ∃ p q, s.serve i = some p ∧ s'.serve = Function.update s.serve i (some q) ∧
      q.rank + 3 ≤ p.rank ∧ s'.acceptor = s.acceptor ∧ s'.clients = s.clients ∧
      s'.fresh = s.fresh ∧ s'.stopping = s.stopping ∧ s'.stopper = s.stopper := by
  simp only [serveStep] at h
  split at h
  case h_1 =>
    next hp =>
    split at h
    all_goals
      obtain rfl := Option.some.inj h
      exact ⟨_, _, hp, rfl, by decide, rfl, rfl, rfl, rfl, rfl⟩
  case h_4 =>
    next hp =>
    obtain rfl := Option.some.inj h
    refine ⟨_, _, hp, rfl, ?_, rfl, rfl, rfl, rfl, rfl⟩
    split
    all_goals decide
  case h_8 => cases h
  case h_9 => cases h
  all_goals
    next hp =>
    obtain rfl := Option.some.inj h
    exact ⟨_, _, hp, rfl, by decide, rfl, rfl, rfl, rfl, rfl⟩

theorem stopStep_cases {s s' : State} (h : stopStep s = some s') :
    (s.stopper = .running ∧ s' = { s with stopping := true, stopper := .waiting }) ∨
      (s.stopper = .waiting ∧ s.acceptor = .done ∧ s' = { s with stopper := .joined }) ∨
      (s.stopper = .joined ∧ (∀ i ∈ s.clients, s.serve i = some .done) ∧
        s' = { s with stopper := .stopped, clients := [] }) := by
  rw [stopStep] at h
  split at h
  · next hs => exact Or.inl ⟨hs, (Option.some.inj h).symm⟩
  · next hs =>
    split at h
    · next ha => exact Or.inr (Or.inl ⟨hs, ha, (Option.some.inj h).symm⟩)
    · cases h
  · next hs =>
    split at h
    · next hall => exact Or.inr (Or.inr ⟨hs, hall, (Option.some.inj h).symm⟩)
    · cases h
  · cases h

/-! ### Every thread is accounted for -/

/-- What `stop` can rely on: every thread that is not done is in `clients`, or about to be. -/
structure Known (s : State) : Prop where
  live : ∀ i p, s.serve i = some p → p ≠ .done → i ∈ s.clients ∨ s.acceptor.starting = some i
  started : ∀ i, i ∈ s.clients ∨ s.acceptor.starting = some i → (s.serve i).isSome = true
  stopping : s.stopping = true ↔ s.stopper ≠ .running
  joined : s.stopper = .joined ∨ s.stopper = .stopped → s.acceptor = .done
  stopped : s.stopper = .stopped → ∀ i p, s.serve i = some p → p = .done

theorem known_start : Known start where
  live := nofun
  started := nofun
  stopping := by simp [start]
  joined := nofun
  stopped := nofun

namespace Known

variable {s s' : State} {i : ℕ} {outcome : Outcome}

theorem acceptStep (h : Known s) (hstep : acceptStep s outcome = some s') : Known s' := by
  obtain ⟨hstopping, hstopper, hne, heffect⟩ := acceptStep_cases hstep
  have hjoined : ¬ (s'.stopper = .joined ∨ s'.stopper = .stopped) := fun hs ↦
    hne (h.joined (hstopper ▸ hs))
  refine ⟨?_, ?_, by rw [hstopping, hstopper]; exact h.stopping, fun hs ↦ absurd hs hjoined,
    fun hs ↦ absurd (Or.inr hs) hjoined⟩
  · intro j p hj hp
    rcases heffect with ⟨hserve, hclients, -, hstarting, -⟩ |
      ⟨i, next?, ha, ha', hserve, hclients, -⟩ | ⟨i, next?, ha, ha', hserve, hclients, -⟩
    · rw [hserve] at hj
      have hmem : j ∈ s.clients := (h.live j p hj hp).resolve_right (by simp [hstarting.1])
      rcases hclients with heq | heq
      · exact Or.inl (heq ▸ hmem)
      · rw [heq]
        exact Or.inl (List.mem_filter.2 ⟨hmem, by simpa [hj] using hp⟩)
    · rcases eq_or_ne j i with rfl | hji
      · exact Or.inr (by rw [ha']; rfl)
      · rw [hserve, Function.update_of_ne hji] at hj
        rw [hclients]
        exact Or.inl ((h.live j p hj hp).resolve_right (by simp [ha, Acceptor.starting]))
    · rw [hserve] at hj
      rw [hclients, List.mem_append, List.mem_singleton]
      rcases h.live j p hj hp with hmem | hstarting
      · exact Or.inl (Or.inl hmem)
      · rw [ha] at hstarting
        exact Or.inl (Or.inr (Option.some.inj hstarting).symm)
  · intro j hj
    rcases heffect with ⟨hserve, hclients, -, hstarting, -⟩ |
      ⟨i, next?, ha, ha', hserve, hclients, -⟩ | ⟨i, next?, ha, ha', hserve, hclients, -⟩
    · have hmem : j ∈ s.clients := by
        rcases hclients with heq | heq
        · exact heq ▸ hj.resolve_right (by simp [hstarting.2])
        · exact List.mem_of_mem_filter (heq ▸ hj.resolve_right (by simp [hstarting.2]))
      rw [hserve]
      exact h.started j (Or.inl hmem)
    · rw [hserve]
      rcases eq_or_ne j i with rfl | hji
      · rw [Function.update_self]
        rfl
      · rw [Function.update_of_ne hji]
        rw [hclients, ha'] at hj
        refine h.started j (Or.inl (hj.resolve_right fun heq ↦ hji (Option.some.inj heq).symm))
    · rw [hserve]
      rw [hclients, ha', List.mem_append, List.mem_singleton] at hj
      rcases hj with (hmem | rfl) | hnone
      · exact h.started j (Or.inl hmem)
      · exact h.started j (Or.inr (by rw [ha]; rfl))
      · cases hnone

theorem serveStep (h : Known s) (hstep : serveStep s i outcome = some s') : Known s' := by
  obtain ⟨p, q, hp, hserve, hrank, ha, hclients, -, hstopping, hstopper⟩ := serveStep_cases hstep
  have hnot : p ≠ .done := by
    rintro rfl
    simp [Serve.rank] at hrank
  refine ⟨fun j r hj hr ↦ ?_, fun j hj ↦ ?_, by rw [hstopping, hstopper]; exact h.stopping,
    by rw [hstopper, ha]; exact h.joined, fun hs ↦ ?_⟩
  · rw [hclients, ha]
    rcases eq_or_ne j i with rfl | hji
    · exact h.live j p hp hnot
    · rw [hserve, Function.update_of_ne hji] at hj
      exact h.live j r hj hr
  · rw [hserve]
    rcases eq_or_ne j i with rfl | hji
    · rw [Function.update_self]
      rfl
    · rw [Function.update_of_ne hji]
      rw [hclients, ha] at hj
      exact h.started j hj
  · exact absurd (h.stopped (hstopper ▸ hs) i p hp) hnot

theorem stopStep (h : Known s) (hstep : stopStep s = some s') : Known s' := by
  rcases stopStep_cases hstep with ⟨-, rfl⟩ | ⟨hs, ha, rfl⟩ | ⟨hs, hall, rfl⟩
  · exact ⟨h.live, h.started, by simp, nofun, nofun⟩
  · have hstopping : s.stopping = true := h.stopping.2 (by rw [hs]; nofun)
    exact ⟨h.live, h.started, by simp [hstopping], fun _ ↦ ha, nofun⟩
  · have hstopping : s.stopping = true := h.stopping.2 (by rw [hs]; nofun)
    have ha : s.acceptor = .done := h.joined (Or.inl hs)
    -- a thread that is not done would be among those that were joined
    have hdone : ∀ i p, s.serve i = some p → p = .done := by
      intro i p hp
      by_contra hne
      rcases h.live i p hp hne with hmem | hstarting
      · exact hne (Option.some.inj (hp.symm.trans (hall i hmem)))
      · rw [ha] at hstarting
        cases hstarting
    refine ⟨fun i p hp hne ↦ absurd (hdone i p hp) hne, fun i hi ↦ ?_, by simp [hstopping],
      fun _ ↦ ha, fun _ ↦ hdone⟩
    rcases hi with hmem | hstarting
    · cases hmem
    · rw [ha] at hstarting
      cases hstarting

theorem step (h : Known s) {a : Action} (hstep : step s a = some s') : Known s' := by
  rcases a with outcome | ⟨i, outcome⟩ | -
  · exact h.acceptStep hstep
  · exact h.serveStep hstep
  · exact h.stopStep hstep

end Known

theorem Reachable.known {s : State} (h : Reachable s) : Known s :=
  Machine.Reachable.invariant h known_start fun _ hknown hstep ↦ hknown.step hstep

/-- Who has a thread was created. -/
theorem Record.Valid.born_of_serve {stopping : Bool} {r : Record} (h : r.Valid stopping) {p : Serve}
    (hp : r.serve = some p) : r.born = true := by
  rcases h with - | c | _ | _ | _
  case unborn => cases hp
  all_goals rfl

/-- What is left of an instance that nobody holds and whose thread is done. -/
theorem Record.Valid.over {stopping : Bool} {r : Record} (h : r.Valid stopping)
    (hheld : r.held = false) (hdone : ∀ p, r.serve = some p → p = .done) :
    r.opened = false ∧ (r.born = true → r.closed = 1) := by
  rcases h with - | c | ⟨p, hp⟩ | ⟨p, hp⟩ | ⟨c, -⟩
  · exact ⟨rfl, nofun⟩
  · cases hheld
  · obtain rfl := hdone p rfl
    cases hp
  · exact ⟨rfl, fun _ ↦ rfl⟩
  · exact ⟨rfl, fun _ ↦ rfl⟩

namespace Shutdown

/-! ### The server underneath -/

/-- The step of the server that an action may be. -/
def Action.server? : Action → Option Ipc.Action
  | .accept outcome _ => some (.accept outcome)
  | .serve i outcome _ => some (.serve i outcome)
  | .stop => some .stop
  | .poll _ | .arrive | .client _ _ => none

/-- **Every step is one of the server, or leaves it where it is.** -/
theorem step_server {s s' : State} {a : Action} (h : step s a = some s') :
    s'.server = s.server ∨ ∃ b, a.server? = some b ∧ Ipc.step s.server b = some s'.server := by
  cases a with
  | accept outcome blocks =>
    simp only [step, acceptStep] at h
    split at h
    · obtain rfl := Option.some.inj h
      exact Or.inl rfl
    · split at h
      · cases h
      · obtain ⟨t, ht, rfl⟩ := Option.map_eq_some_iff.1 h
        exact Or.inr ⟨.accept outcome, rfl, ht⟩
  | serve i outcome blocks =>
    simp only [step, serveStep] at h
    split at h
    · obtain rfl := Option.some.inj h
      exact Or.inl rfl
    · split at h
      · cases h
      · obtain ⟨t, ht, rfl⟩ := Option.map_eq_some_iff.1 h
        exact Or.inr ⟨.serve i outcome, rfl, ht⟩
  | stop =>
    have hbase : ∀ f : Ipc.State → State, (∀ t, (f t).server = t) →
        (Ipc.stopStep s.server).map f = some s' →
          ∃ b, Action.stop.server? = some b ∧ Ipc.step s.server b = some s'.server := by
      rintro f hf hmap
      obtain ⟨t, ht, rfl⟩ := Option.map_eq_some_iff.1 hmap
      exact ⟨.stop, rfl, by rw [hf]; exact ht⟩
    simp only [step, stopStep] at h
    split at h
    · exact Or.inr (hbase _ (fun _ ↦ rfl) h)
    · split at h
      · obtain rfl := Option.some.inj h
        exact Or.inl rfl
      · exact Or.inr (hbase _ (fun _ ↦ rfl) h)
    · exact Or.inr (hbase _ (fun _ ↦ rfl) h)
    · exact Or.inr (hbase _ (fun _ ↦ rfl) h)
  | poll connects =>
    simp only [step, pollStep] at h
    split at h
    · obtain rfl := Option.some.inj h
      exact Or.inl rfl
    · cases h
  | arrive =>
    obtain rfl := Option.some.inj h
    exact Or.inl rfl
  | client i act =>
    simp only [step, clientStep] at h
    split at h
    · obtain rfl := Option.some.inj h
      exact Or.inl rfl
    · cases h

theorem Reachable.server {s : State} (h : Reachable s) : Ipc.Reachable s.server := by
  refine Machine.Reachable.project State.server h fun a hstep ↦ ?_
  rcases step_server hstep with heq | ⟨b, -, hb⟩
  · exact Or.inl heq
  · exact Or.inr ⟨b, hb⟩

/-! ### The work that is left -/

def Io.rank : Io → ℕ
  | .outside => 2
  | .inside => 1
  | .completed | .cancelled => 0

theorem Io.rank_le (o : Io) : o.rank ≤ 2 := by
  cases o
  all_goals decide

theorem Io.rank_enter (blocks : Bool) : (Io.enter blocks).rank ≤ 1 := by
  cases blocks
  all_goals decide

theorem Io.rank_complete_le (o : Io) : o.complete.rank ≤ o.rank := by
  cases o
  all_goals decide

theorem Io.rank_cancel_le (o : Io) : o.cancel.rank ≤ o.rank := by
  cases o
  all_goals decide

/-- A turn of the loop of `stop` that changes something brings `accept_loop` further. -/
theorem Io.rank_poll_le (o : Io) (connects : Bool) :
    (o.poll connects).rank + (if o.poll connects ≠ o then 1 else 0) ≤ o.rank := by
  cases o
  all_goals
    cases connects
    all_goals decide

/-- The steps a thread has left, at most. -/
def threadRank (p? : Option Serve) (o : Io) : ℕ :=
  match p? with
  | none => 0
  | some p => p.rank + o.rank

namespace State

variable (s : State)

/-- The steps the `serve` thread of instance `i` has left, at most. -/
def work (i : ℕ) : ℕ :=
  threadRank (s.server.serve i) (s.io i)

/-- The steps `stop` has left, at most. -/
def stopRank : ℕ :=
  match s.server.stopper with
  | .running | .stopped => 0
  | .waiting => s.server.clients.length + 2
  | .joined => s.uncancelled.length + 1

/-- The steps that all threads have left, at most, once they are told to stop. -/
def rank : ℕ :=
  s.server.acceptor.rank + s.acceptIo.rank + ∑ i ∈ Finset.range s.server.fresh, s.work i +
    s.stopRank

end State

section Rank

variable {s s' : State} {i : ℕ}

theorem lt_fresh_of_serve (h : Reachable s) {p : Serve} (hp : s.server.serve i = some p) :
    i < s.server.fresh := by
  exact of_decide_eq_true ((h.server.inv.valid i).born_of_serve hp)

/-- If only one thread has moved, the sum changes by its part. -/
theorem sum_work (hi : i < s.server.fresh) (hfresh : s'.server.fresh = s.server.fresh)
    (hothers : ∀ j, j ≠ i → s'.work j = s.work j) :
    ∑ j ∈ Finset.range s'.server.fresh, s'.work j + s.work i =
      ∑ j ∈ Finset.range s.server.fresh, s.work j + s'.work i := by
  have hmem : i ∈ Finset.range s.server.fresh := Finset.mem_range.2 hi
  have hrest : ∑ j ∈ (Finset.range s.server.fresh).erase i, s'.work j =
      ∑ j ∈ (Finset.range s.server.fresh).erase i, s.work j :=
    Finset.sum_congr rfl fun j hj ↦ hothers j (Finset.ne_of_mem_erase hj)
  rw [hfresh, ← Finset.add_sum_erase _ s'.work hmem, ← Finset.add_sum_erase _ s.work hmem, hrest]
  omega

theorem stopRank_le {n : ℕ} (hstopper : s'.server.stopper = s.server.stopper)
    (huncancelled : s'.uncancelled = s.uncancelled)
    (hclients : s'.server.clients.length ≤ s.server.clients.length + n) :
    s'.stopRank ≤ s.stopRank + n := by
  simp only [State.stopRank, hstopper, huncancelled]
  split
  all_goals omega

theorem rank_acceptStep (h : Reachable s) (hstop : s.server.stopping = true) {t : Ipc.State}
    {outcome : Outcome} (ht : Ipc.acceptStep s.server outcome = some t) :
    State.rank { s with server := t, acceptIo := .outside } + 1 ≤ s.rank := by
  obtain ⟨-, hstopper, -, heffect⟩ := acceptStep_cases ht
  rcases heffect with ⟨hserve, hclients, hfresh, -, hrank⟩ |
    ⟨i, next?, ha, ha', hserve, hclients, hfresh⟩ | ⟨i, next?, ha, ha', hserve, hclients, hfresh⟩
  · have hlen : t.clients.length ≤ s.server.clients.length + 0 := by
      rcases hclients with heq | heq
      · rw [heq]
        exact le_refl _
      · rw [heq]
        exact List.length_filter_le _ _
    have hwork : State.work { s with server := t, acceptIo := .outside } = s.work :=
      funext fun j ↦ by simp only [State.work, hserve]
    -- an instance that was just created has no thread
    have hsum : ∑ j ∈ Finset.range t.fresh, s.work j =
        ∑ j ∈ Finset.range s.server.fresh, s.work j := by
      rcases hfresh with heq | heq
      · rw [heq]
      · have hnone : s.server.serve s.server.fresh = none := by
          rcases hp : s.server.serve s.server.fresh with - | p
          · rfl
          · exact absurd (lt_fresh_of_serve h hp) (lt_irrefl _)
        rw [heq, Finset.sum_range_succ, State.work, hnone]
        rfl
    have hle : State.stopRank { s with server := t, acceptIo := .outside } ≤ s.stopRank + 0 :=
      stopRank_le hstopper rfl hlen
    have hless := hrank hstop
    simp only [State.rank, hwork, hsum, Io.rank]
    omega
  · have hheld : i ∈ s.server.acceptor.holds := by rw [ha]; exact List.mem_cons_self
    have hi : i < s.server.fresh := (h.server.inv.of_mem_holds hheld).2.2.2.2
    have hsum :
        ∑ j ∈ Finset.range t.fresh, State.work { s with server := t, acceptIo := .outside } j +
          s.work i = ∑ j ∈ Finset.range s.server.fresh, s.work j +
            State.work { s with server := t, acceptIo := .outside } i :=
      sum_work hi hfresh fun j hj ↦ by
        simp only [State.work, hserve, Function.update_of_ne hj]
    have hown : State.work { s with server := t, acceptIo := .outside } i ≤ 20 := by
      have := (s.io i).rank_le
      simp only [State.work, hserve, Function.update_self, threadRank, Serve.rank]
      omega
    have hle : State.stopRank { s with server := t, acceptIo := .outside } ≤ s.stopRank + 0 :=
      stopRank_le hstopper rfl (by rw [hclients]; exact le_refl _)
    simp only [State.rank, ha, ha', Acceptor.rank, Io.rank]
    omega
  · have hwork : State.work { s with server := t, acceptIo := .outside } = s.work :=
      funext fun j ↦ by simp only [State.work, hserve]
    have hle : State.stopRank { s with server := t, acceptIo := .outside } ≤ s.stopRank + 1 :=
      stopRank_le hstopper rfl (by rw [hclients, List.length_append]; exact le_refl _)
    simp only [State.rank, hwork, hfresh, ha, ha', Acceptor.rank, Io.rank]
    omega

theorem rank_accept (h : Reachable s) (hstop : s.server.stopping = true) {outcome : Outcome}
    {blocks : Bool} (hstep : acceptStep s outcome blocks = some s') : s'.rank + 1 ≤ s.rank := by
  rw [acceptStep] at hstep
  split at hstep
  · next hio =>
    obtain rfl := Option.some.inj hstep
    have hwork : State.work { s with acceptIo := .enter blocks } = s.work := rfl
    have hstopRank : State.stopRank { s with acceptIo := .enter blocks } = s.stopRank := rfl
    have henter := Io.rank_enter blocks
    have houtside : s.acceptIo.rank = 2 := by rw [hio.2]; rfl
    simp only [State.rank, hwork, hstopRank]
    omega
  · split at hstep
    · cases hstep
    · obtain ⟨t, ht, rfl⟩ := Option.map_eq_some_iff.1 hstep
      exact rank_acceptStep h hstop ht

/-- One `serve` thread is a step further. -/
theorem rank_of_thread (h : Reachable s) {p : Serve} (hp : s.server.serve i = some p)
    (hothers : ∀ j, j ≠ i → s'.work j = s.work j) (hless : s'.work i + 1 ≤ s.work i)
    (ha : s'.server.acceptor = s.server.acceptor) (hio : s'.acceptIo = s.acceptIo)
    (hfresh : s'.server.fresh = s.server.fresh) (hstop : s'.stopRank = s.stopRank) :
    s'.rank + 1 ≤ s.rank := by
  have hsum := sum_work (lt_fresh_of_serve h hp) hfresh hothers
  simp only [State.rank, ha, hio, hstop]
  omega

theorem rank_serve (h : Reachable s) {outcome : Outcome} {blocks : Bool}
    (hstep : serveStep s i outcome blocks = some s') : s'.rank + 1 ≤ s.rank := by
  rw [serveStep] at hstep
  split at hstep
  · next hblocks =>
    obtain rfl := Option.some.inj hstep
    rcases hp : s.server.serve i with - | p
    · rw [hp] at hblocks
      cases hblocks.1
    · refine rank_of_thread h hp (fun j hj ↦ ?_) ?_ rfl rfl rfl rfl
      · simp only [State.work, Function.update_of_ne hj]
      · have henter := Io.rank_enter (blocks && s.attached i)
        have houtside : (s.io i).rank = 2 := by rw [hblocks.2]; rfl
        simp only [State.work, hp, Function.update_self, threadRank]
        omega
  · split at hstep
    · cases hstep
    · obtain ⟨t, ht, rfl⟩ := Option.map_eq_some_iff.1 hstep
      obtain ⟨p, q, hp, hserve, hrank, ha, hclients, hfresh, -, hstopper⟩ := serveStep_cases ht
      refine rank_of_thread h hp (fun j hj ↦ ?_) ?_ ha rfl hfresh ?_
      · simp only [State.work, hserve, Function.update_of_ne hj]
      · simp only [State.work, hserve, hp, Function.update_self, threadRank, Io.rank]
        omega
      · simp only [State.stopRank, hstopper, hclients]

/-- A call that is cancelled or completed leaves no thread more to do. -/
theorem sum_work_le (hserver : s'.server = s.server) {o : Io}
    (hio : s'.io = Function.update s.io i o) (hle : o.rank ≤ (s.io i).rank) :
    ∑ j ∈ Finset.range s'.server.fresh, s'.work j ≤
      ∑ j ∈ Finset.range s.server.fresh, s.work j := by
  rw [hserver]
  refine Finset.sum_le_sum fun j _ ↦ ?_
  rw [State.work, State.work, hserver, hio]
  rcases eq_or_ne j i with rfl | hj
  · rw [Function.update_self]
    rcases s.server.serve j with - | p
    · exact le_refl _
    · exact Nat.add_le_add_left hle _
  · rw [Function.update_of_ne hj]

theorem rank_stop (h : Reachable s) (hstop : s.server.stopping = true)
    (hstep : stopStep s = some s') : s'.rank + 1 ≤ s.rank := by
  rw [stopStep] at hstep
  split at hstep
  · next hs =>
    obtain ⟨t, ht, rfl⟩ := Option.map_eq_some_iff.1 hstep
    rcases stopStep_cases ht with ⟨hrun, -⟩ | ⟨-, -, rfl⟩ | ⟨hjoined, -⟩
    · cases hs.symm.trans hrun
    · have hwork : State.work { s with
          server := { s.server with stopper := .joined }
          uncancelled := s.server.clients } = s.work := rfl
      simp only [State.rank, State.stopRank, hwork, hs]
      omega
    · cases hs.symm.trans hjoined
  · next hs =>
    split at hstep
    · next i rest hrest =>
      obtain rfl := Option.some.inj hstep
      have hle : ∑ j ∈ Finset.range s.server.fresh, State.work
          { s with io := Function.update s.io i (s.io i).cancel, uncancelled := rest } j ≤
            ∑ j ∈ Finset.range s.server.fresh, s.work j :=
        sum_work_le (s := s) rfl rfl (s.io i).rank_cancel_le
      simp only [State.rank, State.stopRank, hs, hrest, List.length_cons]
      omega
    · obtain ⟨t, ht, rfl⟩ := Option.map_eq_some_iff.1 hstep
      rcases stopStep_cases ht with ⟨hrun, -⟩ | ⟨hwaiting, -⟩ | ⟨-, -, rfl⟩
      · cases hs.symm.trans hrun
      · cases hs.symm.trans hwaiting
      · have hwork : State.work { s with
            server := { s.server with stopper := .stopped, clients := [] } } = s.work := rfl
        simp only [State.rank, State.stopRank, hwork, hs]
        omega
  · next hs => exact absurd hs (h.server.known.stopping.1 hstop)
  · next hs =>
    rw [Ipc.stopStep, hs] at hstep
    cases hstep

/-- **The threads come closer to their ends with every step.** -/
theorem rank_step (h : Reachable s) (hstop : s.server.stopping = true) (a : Action)
    (hstep : step s a = some s') : s'.rank + (if s.isWork a then 1 else 0) ≤ s.rank := by
  cases a with
  | accept outcome blocks => exact rank_accept h hstop hstep
  | serve i outcome blocks => exact rank_serve h hstep
  | stop => exact rank_stop h hstop hstep
  | poll connects =>
    simp only [step, pollStep] at hstep
    split at hstep
    · obtain rfl := Option.some.inj hstep
      have hio := s.acceptIo.rank_poll_le connects
      have hwork : State.work { s with acceptIo := s.acceptIo.poll connects } = s.work := rfl
      have hstopRank : State.stopRank { s with acceptIo := s.acceptIo.poll connects } =
        s.stopRank := rfl
      simp only [State.rank, hwork, hstopRank, State.isWork, decide_eq_true_eq]
      omega
    · cases hstep
  | arrive =>
    obtain rfl := Option.some.inj hstep
    have hio := s.acceptIo.rank_complete_le
    have hwork : State.work { s with acceptIo := s.acceptIo.complete } = s.work := rfl
    have hstopRank : State.stopRank { s with acceptIo := s.acceptIo.complete } = s.stopRank := rfl
    simp only [State.rank, hwork, hstopRank, State.isWork, Bool.false_eq_true, if_false]
    omega
  | client i act =>
    simp only [step, clientStep] at hstep
    split at hstep
    · obtain rfl := Option.some.inj hstep
      have hio : (if (s.server.serve i).any act.ends then (s.io i).complete else s.io i).rank ≤
          (s.io i).rank := by
        split
        · exact (s.io i).rank_complete_le
        · exact le_refl _
      have hsum : ∑ j ∈ Finset.range s.server.fresh, State.work { s with
          io := Function.update s.io i
            (if (s.server.serve i).any act.ends then (s.io i).complete else s.io i)
          attached := Function.update s.attached i (decide (act ≠ .close)) } j ≤
            ∑ j ∈ Finset.range s.server.fresh, s.work j :=
        sum_work_le (s := s) rfl rfl hio
      exact Nat.add_le_add_right (Nat.add_le_add_left hsum _) _
    · cases hstep

end Rank

/-! ### What becomes of `stop` -/

section Stop

variable {s s' : State} {i : ℕ}

theorem stopping_of_step {a : Action} (hstep : step s a = some s')
    (hstop : s.server.stopping = true) : s'.server.stopping = true := by
  rcases step_server hstep with heq | ⟨b, -, hb⟩
  · rw [heq]
    exact hstop
  · rcases b with outcome | ⟨j, outcome⟩ | -
    · rw [(acceptStep_cases hb).1]
      exact hstop
    · obtain ⟨-, -, -, -, -, -, -, -, hstopping, -⟩ := serveStep_cases hb
      rw [hstopping]
      exact hstop
    · rcases stopStep_cases hb with ⟨-, heq⟩ | ⟨-, -, heq⟩ | ⟨-, -, heq⟩
      all_goals rw [heq]
      all_goals first | rfl | exact hstop

theorem Reachable.step {a : Action} (h : Reachable s) (hstep : step s a = some s') :
    Reachable s' := by
  have hrun : Machine.run Shutdown.step s [a] = some s' := by rw [Machine.run_cons, hstep]; rfl
  exact Machine.Reachable.run h hrun

/-- **The threads have only so much left to do.** -/
theorem tally_isWork_le (h : Reachable s) (hstop : s.server.stopping = true)
    {actions : List Action} (hrun : Machine.run step s actions = some s') :
    Machine.tally step State.isWork s actions ≤ s.rank := by
  have hkeep : ∀ {s s' : State} (a : Action), Reachable s ∧ s.server.stopping = true →
      step s a = some s' → (Reachable s' ∧ s'.server.stopping = true) ∧
        s'.rank + (if s.isWork a then 1 else 0) ≤ s.rank := fun a hs hnext ↦
    ⟨⟨hs.1.step hnext, stopping_of_step hnext hs.2⟩, rank_step hs.1 hs.2 a hnext⟩
  have hle : Machine.tally step State.isWork s actions + s'.rank ≤ s.rank :=
    Machine.tally_le hkeep actions ⟨h, hstop⟩ hrun
  omega

/-- How a call that is not blocked can return. -/
theorem Io.exists_returns {o : Io} (houtside : o ≠ .outside) (hinside : o ≠ .inside) :
    ∃ outcome, o.returns outcome = true := by
  cases o with
  | outside => exact absurd rfl houtside
  | inside => exact absurd rfl hinside
  | completed => exact ⟨.success, rfl⟩
  | cancelled => exact ⟨.failure, rfl⟩

/-- A `serve` thread that is not done can go on by itself, or is blocked in a call. -/
theorem exists_serve_or_inside {p : Serve} (hp : s.server.serve i = some p) (hne : p ≠ .done) :
    (p.blocks = true ∧ s.io i = .inside) ∨
      ∃ a, s.isWork a = true ∧ (step s a).isSome = true := by
  have hbase : ∀ outcome, (Ipc.serveStep s.server i outcome).isSome = true := by
    intro outcome
    simp only [Ipc.serveStep, hp]
    cases p with
    | done => exact absurd rfl hne
    | reading => cases outcome <;> rfl
    | _ => rfl
  have hany : (s.server.serve i).any Serve.blocks = p.blocks := by rw [hp]; rfl
  by_cases hblocks : p.blocks = true
  · by_cases houtside : s.io i = .outside
    · refine Or.inr ⟨.serve i .success true, rfl, ?_⟩
      simp only [step, serveStep, hany, hblocks, houtside, true_and, if_true, Option.isSome_some]
    · by_cases hinside : s.io i = .inside
      · exact Or.inl ⟨hblocks, hinside⟩
      · obtain ⟨outcome, houtcome⟩ := Io.exists_returns houtside hinside
        refine Or.inr ⟨.serve i outcome true, rfl, ?_⟩
        rw [step, serveStep, if_neg (fun hand ↦ houtside hand.2),
          if_neg (fun hand ↦ by rw [houtcome] at hand; cases hand.2), Option.isSome_map]
        exact hbase outcome
  · refine Or.inr ⟨.serve i .success true, rfl, ?_⟩
    rw [step, serveStep, if_neg (fun hand ↦ hblocks (hany ▸ hand.1)),
      if_neg (fun hand ↦ hblocks (hany ▸ hand.1)), Option.isSome_map]
    exact hbase .success

/-- `accept_loop` can go on by itself, or `stop` gets it out of its call. -/
theorem exists_accept_or_poll (hwaiting : s.server.stopper = .waiting)
    (hne : s.server.acceptor ≠ .done) :
    ∃ a, s.isWork a = true ∧ (step s a).isSome = true := by
  have hbase : ∀ outcome, (Ipc.acceptStep s.server outcome).isSome = true := by
    intro outcome
    rw [Ipc.acceptStep]
    split
    all_goals first | rfl | skip
    · split
      all_goals rfl
    · next hdone => exact absurd hdone hne
  by_cases hblocks : s.server.acceptor.blocks = true
  · by_cases houtside : s.acceptIo = .outside
    · refine ⟨.accept .success true, rfl, ?_⟩
      rw [step, acceptStep, if_pos ⟨hblocks, houtside⟩]
      rfl
    · by_cases hinside : s.acceptIo = .inside
      · refine ⟨.poll false, ?_, ?_⟩
        · rw [State.isWork, hinside]
          decide
        · rw [step, pollStep, if_pos ⟨hwaiting, hne⟩]
          rfl
      · obtain ⟨outcome, houtcome⟩ := Io.exists_returns houtside hinside
        refine ⟨.accept outcome true, rfl, ?_⟩
        rw [step, acceptStep, if_neg (fun hand ↦ houtside hand.2),
          if_neg (fun hand ↦ by rw [houtcome] at hand; cases hand.2), Option.isSome_map]
        exact hbase outcome
  · refine ⟨.accept .success true, rfl, ?_⟩
    rw [step, acceptStep, if_neg (fun hand ↦ hblocks hand.1), if_neg (fun hand ↦ hblocks hand.1),
      Option.isSome_map]
    exact hbase .success

/-- **As long as `stop` has not returned, something goes on, or a client is waited for.** -/
theorem stopped_or_work_or_waitsFor (h : Reachable s) (hstop : s.server.stopping = true) :
    s.server.stopper = .stopped ∨ (∃ a, s.isWork a = true ∧ (step s a).isSome = true) ∨
      ∃ i, s.WaitsFor i := by
  have hknown := h.server.known
  rcases hs : s.server.stopper
  case running => exact absurd hs (hknown.stopping.1 hstop)
  case waiting =>
    by_cases hdone : s.server.acceptor = .done
    · refine Or.inr (Or.inl ⟨.stop, rfl, ?_⟩)
      simp only [step, stopStep, hs, Ipc.stopStep, if_pos hdone, Option.map_some,
        Option.isSome_some]
    · exact Or.inr (Or.inl (exists_accept_or_poll hs hdone))
  case joined =>
    rcases hrest : s.uncancelled with - | ⟨j, rest⟩
    · by_cases hall : ∀ i ∈ s.server.clients, s.server.serve i = some .done
      · refine Or.inr (Or.inl ⟨.stop, rfl, ?_⟩)
        simp only [step, stopStep, hs, hrest, Ipc.stopStep, if_pos hall, Option.map_some,
          Option.isSome_some]
      · push Not at hall
        obtain ⟨i, hi, hne⟩ := hall
        obtain ⟨p, hp⟩ := Option.isSome_iff_exists.1 (hknown.started i (Or.inl hi))
        have hnot : p ≠ .done := fun heq ↦ hne (heq ▸ hp)
        rcases exists_serve_or_inside hp hnot with ⟨hblocks, hinside⟩ | hwork
        · refine Or.inr (Or.inr ⟨i, by rw [hp]; exact hblocks, hinside, hs, ?_⟩)
          rw [hrest]
          exact List.not_mem_nil
        · exact Or.inr (Or.inl hwork)
    · refine Or.inr (Or.inl ⟨.stop, rfl, ?_⟩)
      simp only [step, stopStep, hs, hrest, Option.isSome_some]
  case stopped => exact Or.inl rfl

/-- The thread is one of those that `reap` waits for, and is not done. -/
theorem mem_clients_of_waitsFor (h : Reachable s) (hwaits : s.WaitsFor i) :
    i ∈ s.server.clients ∧ s.server.serve i ≠ some .done := by
  have hknown := h.server.known
  have hdone : s.server.acceptor = .done := hknown.joined (Or.inl hwaits.joined)
  have hblocks := hwaits.blocks
  rcases hp : s.server.serve i with - | p
  · rw [hp] at hblocks
    cases hblocks
  · rw [hp] at hblocks
    have hne : p ≠ .done := by
      rintro rfl
      cases hblocks
    refine ⟨(hknown.live i p hp hne).resolve_right fun hstarting ↦ ?_, fun heq ↦ ?_⟩
    · rw [hdone] at hstarting
      cases hstarting
    · exact hne (Option.some.inj heq)

/-- Another thread does not touch the call. -/
theorem waitsFor_serveStep (hwaits : s.WaitsFor i) {j : ℕ} (hne : j ≠ i) {outcome : Outcome}
    {blocks : Bool} (hstep : serveStep s j outcome blocks = some s') : s'.WaitsFor i := by
  obtain ⟨hblocks, hinside, hjoined, hpassed⟩ := hwaits
  simp only [serveStep] at hstep
  split at hstep
  · obtain rfl := Option.some.inj hstep
    exact ⟨hblocks, (Function.update_of_ne hne.symm _ _).trans hinside, hjoined, hpassed⟩
  · split at hstep
    · cases hstep
    · obtain ⟨t, ht, rfl⟩ := Option.map_eq_some_iff.1 hstep
      obtain ⟨_, _, -, hserve, -, -, -, -, -, hstopper⟩ := serveStep_cases ht
      refine ⟨?_, (Function.update_of_ne hne.symm _ _).trans hinside, hstopper.trans hjoined,
        hpassed⟩
      show (t.serve i).any Serve.blocks = true
      rw [hserve, Function.update_of_ne hne.symm]
      exact hblocks

/-- **One step of anyone but the client leaves the thread in its call**, and `stop` where it is. -/
theorem waitsFor_step (h : Reachable s) (hwaits : s.WaitsFor i) {a : Action}
    (ha : ∀ act, a ≠ .client i act) (hstep : Shutdown.step s a = some s') : s'.WaitsFor i := by
  obtain ⟨hlive, hserving⟩ := mem_clients_of_waitsFor h hwaits
  have hdone : s.server.acceptor = .done := h.server.known.joined (Or.inl hwaits.joined)
  have ⟨hblocks, hinside, hjoined, hpassed⟩ := hwaits
  cases a with
  | accept outcome blocks =>
    simp only [Shutdown.step, acceptStep, hdone, Acceptor.blocks, Bool.false_eq_true, false_and,
      if_false, Ipc.acceptStep, Option.map_none] at hstep
    cases hstep
  | serve j outcome blocks =>
    rcases eq_or_ne j i with rfl | hne
    · -- the thread itself takes no step
      simp only [Shutdown.step, serveStep] at hstep
      rw [hinside, if_neg (fun hand ↦ by cases hand.2), if_pos ⟨hblocks, rfl⟩] at hstep
      cases hstep
    · exact waitsFor_serveStep hwaits hne hstep
  | stop =>
    simp only [Shutdown.step, stopStep, hjoined] at hstep
    split at hstep
    · next j rest hrest =>
      obtain rfl := Option.some.inj hstep
      rw [hrest, List.mem_cons, not_or] at hpassed
      exact ⟨hblocks, (Function.update_of_ne hpassed.1 _ _).trans hinside, hjoined, hpassed.2⟩
    · obtain ⟨t, ht, rfl⟩ := Option.map_eq_some_iff.1 hstep
      rcases stopStep_cases ht with ⟨hrun, -⟩ | ⟨hwaiting, -⟩ | ⟨-, hall, -⟩
      · cases hjoined.symm.trans hrun
      · cases hjoined.symm.trans hwaiting
      · -- `reap(true)` waits for the thread
        exact absurd (hall i hlive) hserving
  | poll connects =>
    simp only [Shutdown.step, pollStep] at hstep
    rw [if_neg (fun hand ↦ by cases hjoined.symm.trans hand.1)] at hstep
    cases hstep
  | arrive =>
    obtain rfl := Option.some.inj hstep
    exact ⟨hblocks, hinside, hjoined, hpassed⟩
  | client j act =>
    have hne : i ≠ j := by
      rintro rfl
      exact ha act rfl
    simp only [Shutdown.step, clientStep] at hstep
    split at hstep
    · obtain rfl := Option.some.inj hstep
      exact ⟨hblocks, (Function.update_of_ne hne _ _).trans hinside, hjoined, hpassed⟩
    · cases hstep

/-- **While the client does nothing, the thread waits, and `stop` with it.** -/
theorem waitsFor_run (h : Reachable s) (hwaits : s.WaitsFor i) {actions : List Action}
    (hrun : Machine.run step s actions = some s')
    (hquiet : ∀ act, Action.client i act ∉ actions) : s'.WaitsFor i := by
  have hkeep : ∀ {s s' : State} (a : Action), (∀ act, a ≠ .client i act) →
      Reachable s ∧ s.WaitsFor i → Shutdown.step s a = some s' →
        Reachable s' ∧ s'.WaitsFor i := fun a ha hs hnext ↦
    ⟨hs.1.step hnext, waitsFor_step hs.1 hs.2 ha hnext⟩
  exact (Machine.run_invariant_of_forall hkeep
    (fun a ha act heq ↦ hquiet act (heq ▸ ha)) ⟨h, hwaits⟩ hrun).2

/-- When `stop` has returned, no thread is left, and every instance was closed once. -/
theorem closed_of_stopped (h : Reachable s) (hstopped : s.server.stopper = .stopped) :
    s.server.opened = [] ∧ ∀ i, i < s.server.fresh → s.server.closed i = 1 ∧
      ∀ p, s.server.serve i = some p → p = .done := by
  have hknown := h.server.known
  have ha : s.server.acceptor = .done := hknown.joined (Or.inr hstopped)
  have hover (i : ℕ) := (h.server.inv.valid i).over (by simp [State.view, ha, Acceptor.holds])
    (hknown.stopped hstopped i)
  refine ⟨List.eq_nil_iff_forall_not_mem.2 fun i hi ↦ ?_, fun i hi ↦
    ⟨(hover i).2 (decide_eq_true hi), hknown.stopped hstopped i⟩⟩
  exact absurd hi (of_decide_eq_false (hover i).1)

end Stop

/-- **What becomes of `stop`, in every interleaving.** Once it has been called the threads have a
bounded number of steps left, where a turn of its loop counts if it changes something. As long as it
has not returned, one of them can go on by itself, or a `serve` thread waits for its client; and
while that client does nothing, the thread and `stop` stay where they are, whatever else happens.
When it has returned, every thread is done and every instance was closed, once. -/
theorem stop_waits_for_clients {s : State} (h : Reachable s) (hstop : s.server.stopping = true) :
    (∀ actions s', Machine.run step s actions = some s' →
        Machine.tally step State.isWork s actions ≤ s.rank) ∧
      (s.server.stopper = .stopped ∨ (∃ a, s.isWork a = true ∧ (step s a).isSome = true) ∨
        ∃ i, s.WaitsFor i) ∧
      (∀ i, s.WaitsFor i → ∀ actions s', Machine.run step s actions = some s' →
        (∀ act, Action.client i act ∉ actions) →
          s'.WaitsFor i ∧ s'.server.stopper ≠ .stopped) ∧
      (s.server.stopper = .stopped → s.server.opened = [] ∧ ∀ i, i < s.server.fresh →
        s.server.closed i = 1 ∧ ∀ p, s.server.serve i = some p → p = .done) := by
  refine ⟨fun _ _ hrun ↦ tally_isWork_le h hstop hrun, stopped_or_work_or_waitsFor h hstop,
    fun i hwaits actions s' hrun hquiet ↦ ?_, closed_of_stopped h⟩
  have hwaits' := waitsFor_run h hwaits hrun hquiet
  exact ⟨hwaits', by rw [hwaits'.joined]; nofun⟩

/-- A request is being handled when `stop` looks at its thread, and its client does not close its
end. -/
def missed : List Action :=
  List.replicate 2 (Action.accept .success true) ++ Action.arrive ::
    List.replicate 8 (Action.accept .success true) ++ [Action.serve 0 .success true,
      .client 0 .write, .serve 0 .success true, .stop, .poll false, .accept .failure true] ++
    List.replicate 3 (Action.accept .success true) ++ [Action.stop, .stop,
      .serve 0 .success true, .serve 0 .success false, .serve 0 .success true,
      .serve 0 .success true]

theorem isSome_run_missed : (Machine.run step start missed).isSome = true := by
  decide +kernel

/-- `stop` has cancelled everything there was to cancel, and does not return. -/
theorem stop_waits_for_clients_missed :
    ∃ s, Machine.run step start missed = some s ∧ s.uncancelled = [] ∧
      ∀ actions s', Machine.run step s actions = some s' →
        (∀ act, Action.client 0 act ∉ actions) →
          s'.WaitsFor 0 ∧ s'.server.stopper ≠ .stopped :=
  ⟨_, (Option.some_get isSome_run_missed).symm, by decide +kernel,
    (stop_waits_for_clients (Machine.reachable_of_isSome isSome_run_missed)
      (by decide +kernel)).2.2.1 0
        ⟨by decide +kernel, by decide +kernel, by decide +kernel, by decide +kernel⟩⟩

end Shutdown

end NanoSensor.Ipc
