import Mathlib.Logic.Function.Basic
import NanoSensor.Foundation.Machine

/-!
# The control pipe

The server of `src/ipc_windows.cpp`: `accept_loop` owns the instance it listens on and, once a
client has connected, creates the next one before it hands the connected one to a `serve` thread;
`serve` answers one request and closes its instance; `stop` waits for all of them.

The machine has one thread that accepts, one `serve` thread for each instance that was handed out,
and one that stops. A step is one call of the operating system or one access to what the threads
share. How a call ends is part of the action, so that clients may connect, leave or hang in any
order: a thread that hangs takes no step. `CreateNamedPipe` cannot succeed while `kMaxInstances` are
open.

Instances are numbered as they are created; a handle the system uses again is a new instance.
`connect`, `handed` and `closed` are not in the program: they record what `ConnectNamedPipe` said,
how often a `serve` thread was started and how often `CloseHandle` was called for an instance.

The abstract view is that of a single instance (`Record`), whose life is a small state machine of
its own (`Record.Next`): created, then handed out and closed by its `serve` thread, or closed right
away. Every step of the server leaves every instance where it is or takes one of them one step on.
-/

namespace NanoSensor.Ipc

/-- `kMaxInstances`. -/
def kMaxInstances : ℕ := 8

/-- How a call of the operating system ended. -/
inductive Outcome
  | success
  /-- `ERROR_MORE_DATA`: the message is longer than the buffer. -/
  | moreData
  | failure
  deriving DecidableEq, Repr

/-- Where a `serve` thread is. -/
inductive Serve
  /-- In `ReadFile` for the request. -/
  | reading
  /-- About to say that the request is too large. -/
  | refusing
  /-- In the handler. -/
  | handling
  /-- In `WriteFile` for the response. -/
  | responding
  /-- In `ReadFile`, until the client has closed its end. -/
  | draining
  /-- About to call `CloseHandle`. -/
  | closing
  /-- `serve` has returned. -/
  | returned
  /-- `done->store(true)`. -/
  | done
  deriving DecidableEq, Repr

/-- Where `accept_loop` is. An instance is `none` for `INVALID_HANDLE_VALUE`. -/
inductive Acceptor
  /-- At the condition of the loop. -/
  | loop (instance? : Option ℕ)
  /-- In `ConnectNamedPipe`. -/
  | connecting (i : ℕ)
  /-- Behind it, at `if (stopping.load()) break`. -/
  | returned (i : ℕ) (connected : Bool)
  /-- In `next_instance`, at `create_instance`. -/
  | creating (i : ℕ) (connected : Bool)
  /-- The creation has failed. -/
  | failed (i : ℕ) (connected : Bool)
  /-- Asleep, and then at `reap(false)`. -/
  | sleeping (i : ℕ) (connected : Bool)
  /-- `next_instance` has returned. -/
  | created (i : ℕ) (connected : Bool) (next? : Option ℕ)
  /-- The thread is started, and not in `clients` yet. -/
  | spawned (i : ℕ) (next? : Option ℕ)
  /-- At the `reap(false)` that ends a turn. -/
  | reaping (next? : Option ℕ)
  /-- Behind the loop. -/
  | leaving (instance? : Option ℕ)
  /-- At `acceptor_done.store(true)`. -/
  | finished
  | done
  deriving DecidableEq, Repr

/-- Where `Server::stop` is. -/
inductive Stopper
  | running
  /-- Waiting for `acceptor_done`. -/
  | waiting
  /-- At `reap(true)`. -/
  | joined
  | stopped
  deriving DecidableEq, Repr

/-- `Server::Impl`, its threads, and what the system keeps. -/
structure State where
  /-- The instances that are open. -/
  opened : List ℕ
  /-- The number of instances created so far. -/
  fresh : ℕ
  acceptor : Acceptor
  serve : ℕ → Option Serve
  clients : List ℕ
  served : ℕ
  stopping : Bool
  stopper : Stopper
  connect : ℕ → Option Bool
  handed : ℕ → ℕ
  closed : ℕ → ℕ

/-- Whose turn it is, and how the call it makes ends. -/
inductive Action
  | accept (outcome : Outcome)
  | serve (i : ℕ) (outcome : Outcome)
  | stop
  deriving DecidableEq, Repr

/-- `CloseHandle`. -/
def State.closeHandle (s : State) (i : ℕ) : State :=
  { s with
    opened := s.opened.filter (· ≠ i)
    closed := Function.update s.closed i (s.closed i + 1) }

/-- `reap(false)`: join the threads that are done. -/
def State.reap (s : State) : State :=
  { s with clients := s.clients.filter fun i ↦ s.serve i ≠ some .done }

/-- One step of `accept_loop`. -/
def acceptStep (s : State) (outcome : Outcome) : Option State :=
  match s.acceptor with
  | .loop (some i) =>
    some { s with acceptor := if s.stopping then .leaving (some i) else .connecting i }
  | .loop none => some { s with acceptor := .leaving none }
  | .connecting i =>
    let connected := decide (outcome = .success)
    some { s with
      acceptor := .returned i connected
      connect := Function.update s.connect i (some connected) }
  | .returned i connected =>
    some { s with acceptor := if s.stopping then .leaving (some i) else .creating i connected }
  | .creating i connected =>
    if outcome = .success ∧ s.opened.length < kMaxInstances then
      some { s with
        acceptor := .created i connected (some s.fresh)
        opened := s.fresh :: s.opened
        fresh := s.fresh + 1 }
    else some { s with acceptor := .failed i connected }
  | .failed i connected =>
    some { s with
      acceptor := if s.stopping then .created i connected none else .sleeping i connected }
  | .sleeping i connected => some { s.reap with acceptor := .creating i connected }
  | .created i true next? =>
    some { s with
      acceptor := .spawned i next?
      serve := Function.update s.serve i (some .reading)
      handed := Function.update s.handed i (s.handed i + 1) }
  | .created i false next? => some { s.closeHandle i with acceptor := .reaping next? }
  | .spawned i next? => some { s with acceptor := .reaping next?, clients := s.clients ++ [i] }
  | .reaping next? => some { s.reap with acceptor := .loop next? }
  | .leaving (some i) => some { s.closeHandle i with acceptor := .finished }
  | .leaving none => some { s with acceptor := .finished }
  | .finished => some { s with acceptor := .done }
  | .done => none

/-- One step of the `serve` thread of instance `i`. -/
def serveStep (s : State) (i : ℕ) (outcome : Outcome) : Option State :=
  let goTo (p : Serve) : State := { s with serve := Function.update s.serve i (some p) }
  match s.serve i with
  | some .reading =>
    match outcome with
    | .success => some (goTo .handling)
    | .moreData => some (goTo .refusing)
    | .failure => some (goTo .closing)
  | some .refusing => some (goTo .closing)
  | some .handling => some { goTo .responding with served := s.served + 1 }
  | some .responding => some (goTo (if outcome = .success then .draining else .closing))
  | some .draining => some (goTo .closing)
  | some .closing => some ((goTo .returned).closeHandle i)
  | some .returned => some (goTo .done)
  | some .done | none => none

/-- One step of `Server::stop`. -/
def stopStep (s : State) : Option State :=
  match s.stopper with
  | .running => some { s with stopping := true, stopper := .waiting }
  | .waiting => if s.acceptor = .done then some { s with stopper := .joined } else none
  | .joined =>
    -- `reap(true)` joins every thread
    if ∀ i ∈ s.clients, s.serve i = some .done then
      some { s with stopper := .stopped, clients := [] }
    else none
  | .stopped => none

/-- One step of the server. -/
def step (s : State) : Action → Option State
  | .accept outcome => acceptStep s outcome
  | .serve i outcome => serveStep s i outcome
  | .stop => stopStep s

/-- `Server::start` has succeeded: there is one instance, and `accept_loop` was called with it. -/
def start : State where
  opened := [0]
  fresh := 1
  acceptor := .loop (some 0)
  serve := fun _ ↦ none
  clients := []
  served := 0
  stopping := false
  stopper := .running
  connect := fun _ ↦ none
  handed := fun _ ↦ 0
  closed := fun _ ↦ 0

/-- `s` can be reached after `Server::start` has succeeded. -/
def Reachable (s : State) : Prop :=
  Machine.Reachable step start s

/-! ### What a state says -/

/-- The instances that `accept_loop` owns. -/
def Acceptor.holds : Acceptor → List ℕ
  | .loop instance? | .leaving instance? => instance?.toList
  | .connecting i | .returned i _ | .creating i _ | .failed i _ | .sleeping i _ => [i]
  | .created i _ next? => i :: next?.toList
  | .spawned _ next? | .reaping next? => next?.toList
  | .finished | .done => []

/-- What `accept_loop` remembers of `ConnectNamedPipe`. -/
def Acceptor.said : Acceptor → Option (ℕ × Bool)
  | .returned i connected | .creating i connected | .failed i connected | .sleeping i connected
  | .created i connected _ => some (i, connected)
  | .loop _ | .connecting _ | .spawned _ _ | .reaping _ | .leaving _ | .finished | .done => none

/-- `accept_loop` is in its loop, with an instance for the next turn or about to create one. -/
def Acceptor.listens : Acceptor → Bool
  | .loop instance? => instance?.isSome
  | .connecting _ | .returned _ _ | .creating _ _ | .failed _ _ | .sleeping _ _ => true
  | .created _ _ next? | .spawned _ next? | .reaping next? => next?.isSome
  | .leaving _ | .finished | .done => false

/-- The thread has not closed its instance. -/
def Serve.isOpen : Serve → Bool
  | .reading | .refusing | .handling | .responding | .draining | .closing => true
  | .returned | .done => false

/-! ### The life of an instance -/

/-- Everything there is to say about one instance. -/
structure Record where
  /-- It belongs to `accept_loop`. -/
  held : Bool
  serve : Option Serve
  connect : Option Bool
  handed : ℕ
  closed : ℕ
  opened : Bool
  /-- It was created. -/
  born : Bool
  deriving DecidableEq, Repr

/-- What can happen to an instance. -/
inductive Record.Next (stopping : Bool) (r : Record) : Record → Prop
  | create (h : r.born = false) :
    Next stopping r { r with held := true, opened := true, born := true }
  | connect (h : r.held = true) (connected : Bool) :
    Next stopping r { r with connect := some connected }
  | hand (h : r.held = true) (hconnect : r.connect = some true) :
    Next stopping r
      { r with held := false, serve := some .reading, handed := r.handed + 1 }
  /-- Before `stop`, this only happens if no client has connected. -/
  | drop (h : r.held = true) (hconnect : stopping = false → r.connect = some false) :
    Next stopping r { r with held := false, opened := false, closed := r.closed + 1 }
  | serve (p q : Serve) (h : r.serve = some p) (hopen : q.isOpen = p.isOpen) :
    Next stopping r { r with serve := some q }
  | close (h : r.serve = some .closing) :
    Next stopping r
      { r with serve := some .returned, opened := false, closed := r.closed + 1 }

/-- The five ages of an instance. -/
inductive Record.Valid (stopping : Bool) : Record → Prop
  | unborn : Valid stopping ⟨false, none, none, 0, 0, false, false⟩
  | held (connect : Option Bool) : Valid stopping ⟨true, none, connect, 0, 0, true, true⟩
  | serving (p : Serve) (h : p.isOpen = true) :
    Valid stopping ⟨false, some p, some true, 1, 0, true, true⟩
  | served (p : Serve) (h : p.isOpen = false) :
    Valid stopping ⟨false, some p, some true, 1, 1, false, true⟩
  | dropped (connect : Option Bool) (h : stopping = false → connect = some false) :
    Valid stopping ⟨false, none, connect, 0, 1, false, true⟩

namespace Record

variable {stopping : Bool} {r r' : Record}

theorem Valid.next (h : r.Valid stopping) (hnext : r.Next stopping r') : r'.Valid stopping := by
  rcases hnext with ⟨hborn⟩ | ⟨hheld, c⟩ | ⟨hheld, hc⟩ | ⟨hheld, hc⟩ | ⟨p, q, hp, hopen⟩ | ⟨hp⟩
  · rcases h with - | _ | _ | _ | _
    case unborn => exact .held none
    all_goals cases hborn
  · rcases h with - | c' | _ | _ | _
    case held => exact .held _
    all_goals cases hheld
  · rcases h with - | c' | _ | _ | _
    case held =>
      obtain rfl : c' = some true := hc
      exact .serving .reading rfl
    all_goals cases hheld
  · rcases h with - | c' | _ | _ | _
    case held => exact .dropped c' hc
    all_goals cases hheld
  · rcases h with - | c' | ⟨p', hp'⟩ | ⟨p', hp'⟩ | _
    case serving =>
      obtain rfl : p' = p := Option.some.inj hp
      exact .serving q (hopen.trans hp')
    case served =>
      obtain rfl : p' = p := Option.some.inj hp
      exact .served q (hopen.trans hp')
    all_goals cases hp
  · rcases h with - | c' | ⟨p', hp'⟩ | ⟨p', hp'⟩ | _
    case serving => exact .served .returned rfl
    case served =>
      obtain rfl : p' = .closing := Option.some.inj hp
      cases hp'
    all_goals cases hp

/-- What `accept_loop` owns was created, is open, and was neither handed out nor closed. -/
theorem Valid.of_held (h : r.Valid stopping) (hheld : r.held = true) :
    r.serve = none ∧ r.handed = 0 ∧ r.closed = 0 ∧ r.opened = true ∧ r.born = true := by
  rcases h with - | c | _ | _ | _
  case held => exact ⟨rfl, rfl, rfl, rfl, rfl⟩
  all_goals cases hheld

/-- Before `stop`, what becomes of an instance is decided by what `ConnectNamedPipe` said. -/
theorem Valid.of_connect {connected : Bool} (h : r.Valid false)
    (hconnect : r.connect = some connected) :
    (r.held = true ∧ r.handed = 0 ∧ r.closed = 0) ∨
      (r.held = false ∧ connected = true ∧ r.handed = 1 ∧
        (r.opened = true ∧ r.closed = 0 ∨ r.opened = false ∧ r.closed = 1)) ∨
      (r.held = false ∧ connected = false ∧ r.handed = 0 ∧ r.opened = false ∧ r.closed = 1) := by
  rcases h with - | c | ⟨p, -⟩ | ⟨p, -⟩ | ⟨c, hc⟩
  · cases hconnect
  · exact Or.inl ⟨rfl, rfl, rfl⟩
  · obtain rfl : true = connected := Option.some.inj hconnect
    exact Or.inr (Or.inl ⟨rfl, rfl, rfl, Or.inl ⟨rfl, rfl⟩⟩)
  · obtain rfl : true = connected := Option.some.inj hconnect
    exact Or.inr (Or.inl ⟨rfl, rfl, rfl, Or.inr ⟨rfl, rfl⟩⟩)
  · obtain rfl : false = connected := Option.some.inj ((hc rfl).symm.trans hconnect)
    exact Or.inr (Or.inr ⟨rfl, rfl, rfl, rfl, rfl⟩)

/-- Stopping allows more. -/
theorem Valid.stop (h : r.Valid stopping) : r.Valid true := by
  rcases h with - | c | ⟨p, hp⟩ | ⟨p, hp⟩ | ⟨c, -⟩
  · exact .unborn
  · exact .held c
  · exact .serving p hp
  · exact .served p hp
  · exact .dropped c nofun

end Record

/-- What a state says about instance `i`. -/
def State.view (s : State) (i : ℕ) : Record where
  held := decide (i ∈ s.acceptor.holds)
  serve := s.serve i
  connect := s.connect i
  handed := s.handed i
  closed := s.closed i
  opened := decide (i ∈ s.opened)
  born := decide (i < s.fresh)

/-! ### The server follows the lives of its instances -/

/-- What holds in every reachable state. -/
structure Inv (s : State) : Prop where
  nodup : s.acceptor.holds.Nodup
  valid : ∀ i, (s.view i).Valid s.stopping
  said : ∀ i connected, s.acceptor.said = some (i, connected) → s.connect i = some connected
  listens : s.stopping = false → s.acceptor.listens = true

theorem inv_start : Inv start where
  nodup := List.pairwise_singleton _ 0
  valid := fun i ↦ by
    rcases eq_or_ne i 0 with rfl | hne
    · exact .held none
    · have hview : start.view i = ⟨false, none, none, 0, 0, false, false⟩ := by
        simp [State.view, start, Acceptor.holds, hne]
      rw [hview]
      exact .unborn
  said := nofun
  listens := fun _ ↦ rfl

namespace Inv

variable {s s' : State} {i : ℕ} {connected : Bool} {next? : Option ℕ}

/-- One instance takes a step of its life, and the others stay where they are. -/
theorem of_next (h : Inv s) {r : Record} (hnext : (s.view i).Next s.stopping r)
    (hown : s'.view i = r) (hothers : ∀ j, j ≠ i → s'.view j = s.view j)
    (hstop : s'.stopping = s.stopping) (hnodup : s'.acceptor.holds.Nodup)
    (hsaid : ∀ i connected, s'.acceptor.said = some (i, connected) → s'.connect i = some connected)
    (hlistens : s.stopping = false → s'.acceptor.listens = true) : Inv s' := by
  refine ⟨hnodup, fun j ↦ ?_, hsaid, fun hfalse ↦ hlistens (hstop ▸ hfalse)⟩
  rw [hstop]
  rcases eq_or_ne j i with rfl | hne
  · rw [hown]
    exact (h.valid j).next hnext
  · rw [hothers j hne]
    exact h.valid j

theorem said_of (h : Inv s) {a b : Acceptor} (ha : s.acceptor = a) (hb : b.said = a.said) :
    ∀ i connected, b.said = some (i, connected) → s.connect i = some connected := by
  rw [hb, ← ha]
  exact h.said

theorem listens_of (h : Inv s) {a b : Acceptor} (ha : s.acceptor = a)
    (hb : b.listens = a.listens) : s.stopping = false → b.listens = true := by
  rw [hb, ← ha]
  exact h.listens

/-- `accept_loop` goes on with the instances it has. -/
theorem goOn (h : Inv s) {a : Acceptor} {clients : List ℕ} (hholds : a.holds = s.acceptor.holds)
    (hsaid : ∀ i connected, a.said = some (i, connected) → s.connect i = some connected)
    (hlistens : s.stopping = false → a.listens = true) :
    Inv { s with acceptor := a, clients := clients } := by
  refine ⟨hholds ▸ h.nodup, fun j ↦ ?_, hsaid, hlistens⟩
  have hview : State.view { s with acceptor := a, clients := clients } j = s.view j := by
    simp only [State.view, hholds]
  rw [hview]
  exact h.valid j

/-- What `accept_loop` owns was created, is open, and was neither handed out nor closed. -/
theorem of_mem_holds (h : Inv s) (hi : i ∈ s.acceptor.holds) :
    s.serve i = none ∧ s.handed i = 0 ∧ s.closed i = 0 ∧ i ∈ s.opened ∧ i < s.fresh := by
  obtain ⟨hserve, hhanded, hclosed, hopened, hborn⟩ := (h.valid i).of_held (decide_eq_true hi)
  exact ⟨hserve, hhanded, hclosed, of_decide_eq_true hopened, of_decide_eq_true hborn⟩

theorem connect (h : Inv s) (ha : s.acceptor = .connecting i) (connected : Bool) :
    Inv { s with
      acceptor := .returned i connected
      connect := Function.update s.connect i (some connected) } := by
  have hheld : (s.view i).held = true := by simp [State.view, ha, Acceptor.holds]
  refine h.of_next (.connect hheld connected) ?_ (fun j hne ↦ ?_) rfl (List.pairwise_singleton _ i)
    ?_ fun _ ↦ rfl
  · simp [State.view, ha, Acceptor.holds]
  · simp [State.view, ha, Acceptor.holds, hne]
  · rintro i' c' heq
    obtain ⟨rfl, rfl⟩ := Prod.mk.inj (Option.some.inj heq)
    exact Function.update_self _ _ _

theorem create (h : Inv s) (ha : s.acceptor = .creating i connected) :
    Inv { s with
      acceptor := .created i connected (some s.fresh)
      opened := s.fresh :: s.opened
      fresh := s.fresh + 1 } := by
  have hi : i ∈ s.acceptor.holds := by rw [ha]; exact List.mem_cons_self
  have hlt : i < s.fresh := (h.of_mem_holds hi).2.2.2.2
  have hunborn : (s.view s.fresh).born = false := by simp [State.view]
  refine h.of_next (.create hunborn) ?_ (fun j hne ↦ ?_) rfl ?_ (h.said_of ha rfl) fun _ ↦ rfl
  · simp [State.view, Acceptor.holds]
  · have hborn : j < s.fresh + 1 ↔ j < s.fresh := by omega
    simp [State.view, ha, Acceptor.holds, hne, hborn]
  · show [i, s.fresh].Nodup
    simp [Nat.ne_of_lt hlt]

theorem hand (h : Inv s) (ha : s.acceptor = .created i true next?) :
    Inv { s with
      acceptor := .spawned i next?
      serve := Function.update s.serve i (some .reading)
      handed := Function.update s.handed i (s.handed i + 1) } := by
  have hnodup : (i :: next?.toList).Nodup := by
    have hall := h.nodup
    rwa [ha] at hall
  obtain ⟨hnot, hrest⟩ := List.nodup_cons.1 hnodup
  have hheld : (s.view i).held = true := by simp [State.view, ha, Acceptor.holds]
  refine h.of_next (.hand hheld (h.said_of ha rfl i true rfl)) ?_ (fun j hne ↦ ?_) rfl hrest nofun
    (h.listens_of ha rfl)
  · simp [State.view, Acceptor.holds] at hnot ⊢
    exact hnot
  · simp [State.view, ha, Acceptor.holds, hne]

/-- `accept_loop` closes an instance. -/
theorem drop (h : Inv s) {a : Acceptor} (hholds : s.acceptor.holds = i :: a.holds)
    (hsaid : a.said = none) (hconnect : s.stopping = false → s.connect i = some false)
    (hlistens : s.stopping = false → a.listens = true) :
    Inv { s.closeHandle i with acceptor := a } := by
  obtain ⟨hnot, hrest⟩ := List.nodup_cons.1 (hholds ▸ h.nodup)
  have hheld : (s.view i).held = true := by simp [State.view, hholds]
  refine h.of_next (.drop hheld hconnect) ?_ (fun j hne ↦ ?_) rfl hrest (fun _ _ heq ↦ ?_) hlistens
  · simp [State.view, State.closeHandle, hnot]
  · simp [State.view, State.closeHandle, hholds, hne]
  · rw [hsaid] at heq
    cases heq

theorem serve (h : Inv s) {p : Serve} (q : Serve) (hp : s.serve i = some p)
    (hopen : q.isOpen = p.isOpen) {served : ℕ} :
    Inv { s with serve := Function.update s.serve i (some q), served := served } := by
  refine h.of_next (.serve p q hp hopen) ?_ (fun j hne ↦ ?_) rfl h.nodup h.said h.listens
  · simp [State.view]
  · simp [State.view, hne]

theorem close (h : Inv s) (hp : s.serve i = some .closing) :
    Inv (State.closeHandle { s with serve := Function.update s.serve i (some .returned) } i) := by
  refine h.of_next (.close hp) ?_ (fun j hne ↦ ?_) rfl h.nodup h.said h.listens
  · simp [State.view, State.closeHandle]
  · simp [State.view, State.closeHandle, hne]

theorem acceptStep {outcome : Outcome} (h : Inv s) (hstep : acceptStep s outcome = some s') :
    Inv s' := by
  rw [Ipc.acceptStep] at hstep
  split at hstep
  · next i ha =>
    obtain rfl := Option.some.inj hstep
    split
    · next hstop => exact h.goOn (by rw [ha]; rfl) nofun (by rw [hstop]; nofun)
    · exact h.goOn (by rw [ha]; rfl) nofun fun _ ↦ rfl
  · next ha =>
    obtain rfl := Option.some.inj hstep
    exact h.goOn (by rw [ha]; rfl) nofun (h.listens_of ha rfl)
  · next i ha =>
    obtain rfl := Option.some.inj hstep
    exact h.connect ha _
  · next i c ha =>
    obtain rfl := Option.some.inj hstep
    split
    · next hstop => exact h.goOn (by rw [ha]; rfl) nofun (by rw [hstop]; nofun)
    · exact h.goOn (by rw [ha]; rfl) (h.said_of ha rfl) fun _ ↦ rfl
  · next i c ha =>
    split at hstep
    · obtain rfl := Option.some.inj hstep
      exact h.create ha
    · obtain rfl := Option.some.inj hstep
      exact h.goOn (by rw [ha]; rfl) (h.said_of ha rfl) fun _ ↦ rfl
  · next i c ha =>
    obtain rfl := Option.some.inj hstep
    split
    · next hstop => exact h.goOn (by rw [ha]; rfl) (h.said_of ha rfl) (by rw [hstop]; nofun)
    · exact h.goOn (by rw [ha]; rfl) (h.said_of ha rfl) fun _ ↦ rfl
  · next i c ha =>
    obtain rfl := Option.some.inj hstep
    exact h.goOn (by rw [ha]; rfl) (h.said_of ha rfl) fun _ ↦ rfl
  · next i next? ha =>
    obtain rfl := Option.some.inj hstep
    exact h.hand ha
  · next i next? ha =>
    obtain rfl := Option.some.inj hstep
    exact h.drop (by rw [ha]; rfl) rfl (fun _ ↦ h.said_of ha rfl i false rfl) (h.listens_of ha rfl)
  · next i next? ha =>
    obtain rfl := Option.some.inj hstep
    exact h.goOn (by rw [ha]; rfl) nofun (h.listens_of ha rfl)
  · next next? ha =>
    obtain rfl := Option.some.inj hstep
    exact h.goOn (by rw [ha]; rfl) nofun (h.listens_of ha rfl)
  · next i ha =>
    -- behind the loop only if it was told to stop
    obtain rfl := Option.some.inj hstep
    exact h.drop (by rw [ha]; rfl) rfl (fun hfalse ↦ absurd (h.listens_of ha rfl hfalse) nofun)
      (h.listens_of ha rfl)
  · next ha =>
    obtain rfl := Option.some.inj hstep
    exact h.goOn (by rw [ha]; rfl) nofun (h.listens_of ha rfl)
  · next ha =>
    obtain rfl := Option.some.inj hstep
    exact h.goOn (by rw [ha]; rfl) nofun (h.listens_of ha rfl)
  · cases hstep

theorem serveStep {outcome : Outcome} (h : Inv s) (hstep : serveStep s i outcome = some s') :
    Inv s' := by
  simp only [Ipc.serveStep] at hstep
  split at hstep
  · next hp =>
    split at hstep
    · obtain rfl := Option.some.inj hstep
      exact h.serve .handling hp rfl
    · obtain rfl := Option.some.inj hstep
      exact h.serve .refusing hp rfl
    · obtain rfl := Option.some.inj hstep
      exact h.serve .closing hp rfl
  · next hp =>
    obtain rfl := Option.some.inj hstep
    exact h.serve .closing hp rfl
  · next hp =>
    obtain rfl := Option.some.inj hstep
    exact h.serve .responding hp rfl
  · next hp =>
    obtain rfl := Option.some.inj hstep
    refine h.serve _ hp ?_
    split
    · rfl
    · rfl
  · next hp =>
    obtain rfl := Option.some.inj hstep
    exact h.serve .closing hp rfl
  · next hp =>
    obtain rfl := Option.some.inj hstep
    exact h.close hp
  · next hp =>
    obtain rfl := Option.some.inj hstep
    exact h.serve .done hp rfl
  · cases hstep
  · cases hstep

theorem stopStep (h : Inv s) (hstep : stopStep s = some s') : Inv s' := by
  rw [Ipc.stopStep] at hstep
  split at hstep
  · obtain rfl := Option.some.inj hstep
    exact ⟨h.nodup, fun i ↦ (h.valid i).stop, h.said, nofun⟩
  · split at hstep
    · obtain rfl := Option.some.inj hstep
      exact ⟨h.nodup, h.valid, h.said, h.listens⟩
    · cases hstep
  · split at hstep
    · obtain rfl := Option.some.inj hstep
      exact ⟨h.nodup, h.valid, h.said, h.listens⟩
    · cases hstep
  · cases hstep

/-- **Every step of every thread keeps the invariant.** -/
theorem step (h : Inv s) {a : Action} (hstep : step s a = some s') : Inv s' := by
  rcases a with outcome | ⟨i, outcome⟩ | -
  · exact h.acceptStep hstep
  · exact h.serveStep hstep
  · exact h.stopStep hstep

end Inv

theorem Reachable.inv {s : State} (h : Reachable s) : Inv s :=
  Machine.Reachable.invariant h inv_start fun _ hinv hstep ↦ hinv.step hstep

theorem Acceptor.exists_mem_holds_of_listens : ∀ {a : Acceptor}, a.listens = true →
    ∃ i, i ∈ a.holds
  | .loop (some i), _ | .connecting i, _ | .returned i _, _ | .creating i _, _ | .failed i _, _
  | .sleeping i _, _ | .created i _ _, _ | .spawned _ (some i), _ | .reaping (some i), _ =>
    ⟨i, List.mem_cons_self⟩

/-- **The pipe always has an instance.** In every state that can be reached before `stop` is called,
`accept_loop` owns an open instance. An instance on which `ConnectNamedPipe` has returned is still
with `accept_loop`, neither handed out nor closed; or a client had connected and it was handed to
one `serve` thread, once, which has it open or has closed it once; or no client had connected and it
was closed, once. -/
theorem acceptor_owns_open_instance {s : State} (h : Reachable s) (hrun : s.stopping = false) :
    (∃ i ∈ s.acceptor.holds, i ∈ s.opened) ∧
      ∀ i connected, s.connect i = some connected →
        (i ∈ s.acceptor.holds ∧ s.handed i = 0 ∧ s.closed i = 0) ∨
        (i ∉ s.acceptor.holds ∧ connected = true ∧ s.handed i = 1 ∧
          (i ∈ s.opened ∧ s.closed i = 0 ∨ i ∉ s.opened ∧ s.closed i = 1)) ∨
        (i ∉ s.acceptor.holds ∧ connected = false ∧ s.handed i = 0 ∧ i ∉ s.opened ∧
          s.closed i = 1) := by
  refine ⟨?_, fun i connected hconnect ↦ ?_⟩
  · obtain ⟨i, hi⟩ := Acceptor.exists_mem_holds_of_listens (h.inv.listens hrun)
    exact ⟨i, hi, (h.inv.of_mem_holds hi).2.2.2.1⟩
  · have hvalid : (s.view i).Valid false := hrun ▸ h.inv.valid i
    simpa [State.view] using hvalid.of_connect hconnect

/-- All instances are open: seven are being served by clients that hang, and one is connected while
`accept_loop` waits for room. -/
theorem acceptor_owns_open_instance_when_busy :
    ∃ s, Machine.run step start ((List.replicate 7 [Action.accept .success, .accept .success,
          .accept .success, .accept .success, .accept .success, .accept .success,
          .accept .success]).flatten ++
        [.accept .success, .accept .success, .accept .success, .accept .success]) = some s ∧
      (s.stopping = false ∧ s.opened.length = kMaxInstances ∧ s.acceptor = .failed 7 true) ∧
      (∃ i ∈ s.acceptor.holds, i ∈ s.opened) ∧
        ∀ i connected, s.connect i = some connected →
          (i ∈ s.acceptor.holds ∧ s.handed i = 0 ∧ s.closed i = 0) ∨
          (i ∉ s.acceptor.holds ∧ connected = true ∧ s.handed i = 1 ∧
            (i ∈ s.opened ∧ s.closed i = 0 ∨ i ∉ s.opened ∧ s.closed i = 1)) ∨
          (i ∉ s.acceptor.holds ∧ connected = false ∧ s.handed i = 0 ∧ i ∉ s.opened ∧
            s.closed i = 1) :=
  ⟨_, (Option.some_get (by decide)).symm, by decide,
    acceptor_owns_open_instance (Machine.reachable_of_isSome _) (by decide)⟩

end NanoSensor.Ipc
