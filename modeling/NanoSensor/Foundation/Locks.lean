import Mathlib.Logic.Relation
import Mathlib.Logic.Function.Basic
import NanoSensor.Foundation.Machine

/-!
# Threads and their locks

What threads do with their locks, and nothing else: a `Prog` is the control flow of a program with
the values left out, so that a branch may go either way and a loop may end after any turn. Locks are
held for a scope, as by the guard objects of C++: what `ret` leaves on its way out of a function it
unlocks, in the order in which the guards would be destroyed. A thread is the stack of what it has
still to do.

The rule this is about is the simplest there is: **whoever waits for a lock holds none**.
`Prog.Disciplined` says that a program keeps the rule, by looking at its text alone.
`Reachable.not_holding_of_wants` says that then, in every interleaving of any number of threads, no
thread that is about to lock anything holds a lock, and `Reachable.not_circular` that no circle of
threads wait for one another.
-/

universe u v

namespace Locks

/-- The control flow of a program over the locks `M`. -/
inductive Prog (M : Type u)
  | skip
  /-- Lock, go through the body, unlock. -/
  | scope (m : M) (body : Prog M)
  /-- The same, but if the lock is not to be had the body runs without it. -/
  | tryScope (m : M) (body : Prog M)
  /-- Wait for a condition: unlock, and lock again before going on. -/
  | wait (m : M)
  /-- Unlock and never come back. -/
  | abandon (m : M)
  /-- The thread is over. -/
  | exit
  /-- Return from the function. -/
  | ret
  | call (body : Prog M)
  | seq (first second : Prog M)
  | choice (left right : Prog M)
  /-- One of many. -/
  | any (each : ℕ → Prog M)
  | loop (body : Prog M)

/-- One after the other. -/
def Prog.block {M : Type u} (ps : List (Prog M)) : Prog M :=
  ps.foldr .seq .skip

/-- Return, or go on. -/
def Prog.mayReturn {M : Type u} : Prog M :=
  .choice .ret .skip

/-- What a thread has still to do. -/
inductive Item (M : Type u)
  | run (p : Prog M)
  /-- The end of a scope. -/
  | release (m : M)
  /-- The end of a wait. -/
  | reacquire (m : M)
  /-- The end of a function. -/
  | boundary

/-- The threads `ι` and who owns which lock. -/
structure State (ι : Type v) (M : Type u) where
  owner : M → Option ι
  control : ι → List (Item M)

section Step

variable {ι : Type v} {M : Type u} [DecidableEq M]

/-- One step of thread `i`, as the owners and the stack after it. Where the program leaves a choice,
`c` makes it. -/
def stepThread (i : ι) (c : ℕ) (owner : M → Option ι) :
    List (Item M) → Option ((M → Option ι) × List (Item M))
  | [] => none
  | .release m :: todo => some (Function.update owner m none, todo)
  | .reacquire m :: todo =>
    if owner m = none then some (Function.update owner m (some i), todo) else none
  | .boundary :: todo => some (owner, todo)
  | .run .skip :: todo => some (owner, todo)
  | .run (.scope m p) :: todo =>
    if owner m = none then
      some (Function.update owner m (some i), .run p :: .release m :: todo)
    else none
  | .run (.tryScope m p) :: todo =>
    -- the attempt may fail even if the lock is free
    if owner m = none ∧ c = 0 then
      some (Function.update owner m (some i), .run p :: .release m :: todo)
    else some (owner, .run p :: todo)
  | .run (.wait m) :: todo => some (Function.update owner m none, .reacquire m :: todo)
  | .run (.abandon m) :: _ => some (Function.update owner m none, [])
  | .run .exit :: _ => some (owner, [])
  | .run .ret :: [] => some (owner, [])
  | .run .ret :: .run _ :: todo => some (owner, .run .ret :: todo)
  | .run .ret :: .release m :: todo => some (Function.update owner m none, .run .ret :: todo)
  | .run .ret :: .reacquire _ :: _ => none
  | .run .ret :: .boundary :: todo => some (owner, todo)
  | .run (.call p) :: todo => some (owner, .run p :: .boundary :: todo)
  | .run (.seq p q) :: todo => some (owner, .run p :: .run q :: todo)
  | .run (.choice p q) :: todo => some (owner, .run (if c = 0 then p else q) :: todo)
  | .run (.any each) :: todo => some (owner, .run (each c) :: todo)
  | .run (.loop p) :: todo =>
    some (owner, if c = 0 then .run p :: .run (.loop p) :: todo else todo)

/-- One step of one thread. -/
def step [DecidableEq ι] (s : State ι M) (a : ι × ℕ) : Option (State ι M) :=
  (stepThread a.1 a.2 s.owner (s.control a.1)).map fun next ↦
    ⟨next.1, Function.update s.control a.1 next.2⟩

end Step

/-- All locks are free, and every thread is at the beginning of its program. -/
def start {ι : Type v} {M : Type u} (program : ι → Prog M) : State ι M where
  owner := fun _ ↦ none
  control := fun i ↦ [.run (program i)]

/-! ### Who waits for whom -/

/-- The lock that a thread has to get before it can go on. -/
def wants {M : Type u} : List (Item M) → Option M
  | .run (.scope m _) :: _ => some m
  | .reacquire m :: _ => some m
  | _ => none

/-- Thread `i` is about to lock what thread `j` owns. -/
def State.WaitsFor {ι : Type v} {M : Type u} (s : State ι M) (i j : ι) : Prop :=
  ∃ m, wants (s.control i) = some m ∧ s.owner m = some j

/-! ### The rule, read off the text -/

/-- Run by a thread that owns the locks `held`, the program locks something only when it owns
nothing else. -/
def Prog.Disciplined {M : Type u} (held : List M) : Prog M → Prop
  | .skip | .ret => True
  | .exit => held = []
  | .scope m p => held = [] ∧ p.Disciplined [m]
  | .tryScope m p => p.Disciplined (m :: held) ∧ p.Disciplined held
  | .wait m | .abandon m => held = [m]
  | .call p | .loop p => p.Disciplined held
  | .seq p q | .choice p q => p.Disciplined held ∧ q.Disciplined held
  | .any each => ∀ n, (each n).Disciplined held

namespace Prog

variable {M : Type u} {held : List M} {m : M} {p q : Prog M}

@[simp]
theorem disciplined_scope : (scope m p).Disciplined held ↔ held = [] ∧ p.Disciplined [m] :=
  Iff.rfl

@[simp]
theorem disciplined_wait : (wait m).Disciplined held ↔ held = [m] :=
  Iff.rfl

@[simp]
theorem disciplined_call : (call p).Disciplined held ↔ p.Disciplined held :=
  Iff.rfl

@[simp]
theorem disciplined_loop : (loop p).Disciplined held ↔ p.Disciplined held :=
  Iff.rfl

@[simp]
theorem disciplined_seq :
    (seq p q).Disciplined held ↔ p.Disciplined held ∧ q.Disciplined held :=
  Iff.rfl

@[simp]
theorem disciplined_block {ps : List (Prog M)} :
    (block ps).Disciplined held ↔ ∀ p ∈ ps, p.Disciplined held := by
  induction ps with
  | nil => exact iff_of_true trivial (List.forall_mem_nil _)
  | cons p ps ih =>
    rw [List.forall_mem_cons, ← ih]
    exact Iff.rfl

@[simp]
theorem disciplined_mayReturn : (mayReturn : Prog M).Disciplined held :=
  ⟨trivial, trivial⟩

end Prog

/-- The same for what a thread has still to do, outside of a wait. -/
def Fits {M : Type u} : List M → List (Item M) → Prop
  | held, [] => held = []
  | held, .run p :: todo => p.Disciplined held ∧ Fits held todo
  | held, .release m :: todo => ∃ rest, held = m :: rest ∧ Fits rest todo
  | held, .boundary :: todo => Fits held todo
  | _, .reacquire _ :: _ => False

/-- The same for a thread, which owns nothing while it waits. -/
def FitsThread {M : Type u} (held : List M) : List (Item M) → Prop
  | .reacquire m :: todo => held = [] ∧ Fits [m] todo
  | todo => Fits held todo

section Soundness

variable {ι : Type v} {M : Type u} {held : List M}

theorem Fits.fitsThread : ∀ {todo : List (Item M)}, Fits held todo → FitsThread held todo
  | [], h | .run _ :: _, h | .release _ :: _, h | .boundary :: _, h => h

/-- **Whoever wants a lock owns none.** -/
theorem FitsThread.eq_nil_of_wants {m : M} : ∀ {todo : List (Item M)}, FitsThread held todo →
    wants todo = some m → held = []
  | .run (.scope _ _) :: _, h, _ => h.1.1
  | .reacquire _ :: _, h, _ => h.1

variable [DecidableEq M] {i : ι} {c : ℕ} {owner owner' : M → Option ι} {todo todo' : List (Item M)}

/-- What a step does to the locks of a thread that owns `held`. -/
inductive Exchange (i : ι) (owner : M → Option ι) (held : List M) :
    (M → Option ι) → List M → Prop
  | keep : Exchange i owner held owner held
  | take (m : M) (hfree : owner m = none) :
    Exchange i owner held (Function.update owner m (some i)) (m :: held)
  | give (m : M) (rest : List M) (h : held = m :: rest) :
    Exchange i owner held (Function.update owner m none) rest

/-- What a step can do to a thread that fits. -/
def Proceeds (i : ι) (owner : M → Option ι) (held : List M)
    (next : (M → Option ι) × List (Item M)) : Prop :=
  ∃ held', Exchange i owner held next.1 held' ∧ FitsThread held' next.2

theorem Proceeds.keep (h : Fits held todo) : Proceeds i owner held (owner, todo) :=
  ⟨held, .keep, h.fitsThread⟩

theorem Proceeds.take {m : M} (hfree : owner m = none) (h : Fits (m :: held) todo) :
    Proceeds i owner held (Function.update owner m (some i), todo) :=
  ⟨m :: held, .take m hfree, h.fitsThread⟩

theorem Proceeds.give {m : M} {rest : List M} (hheld : held = m :: rest)
    (h : FitsThread rest todo) :
    Proceeds i owner held (Function.update owner m none, todo) :=
  ⟨rest, .give m rest hheld, h⟩

/-- Returning goes through the stack, one item a step. -/
theorem Fits.proceeds_ret {next : (M → Option ι) × List (Item M)} (h : Fits held todo)
    (hstep : stepThread i c owner (.run .ret :: todo) = some next) :
    Proceeds i owner held next := by
  rcases todo with - | ⟨item, todo⟩
  · obtain rfl := Option.some.inj hstep
    exact .keep h
  · cases item with
    | run q =>
      obtain rfl := Option.some.inj hstep
      exact .keep ⟨trivial, h.2⟩
    | release m =>
      obtain rfl := Option.some.inj hstep
      obtain ⟨rest, hheld, hrest⟩ := h
      have hret : Fits rest (.run .ret :: todo) := ⟨trivial, hrest⟩
      exact .give hheld hret.fitsThread
    | reacquire m => exact h.elim
    | boundary =>
      obtain rfl := Option.some.inj hstep
      exact .keep h

theorem Fits.proceeds_run {p : Prog M} {next : (M → Option ι) × List (Item M)}
    (hp : p.Disciplined held) (h : Fits held todo)
    (hstep : stepThread i c owner (.run p :: todo) = some next) : Proceeds i owner held next := by
  cases p with
  | skip =>
    obtain rfl := Option.some.inj hstep
    exact .keep h
  | scope m p =>
    rw [stepThread] at hstep
    split at hstep
    · next hfree =>
      obtain rfl := Option.some.inj hstep
      exact .take hfree ⟨hp.1 ▸ hp.2, held, rfl, h⟩
    · cases hstep
  | tryScope m p =>
    rw [stepThread] at hstep
    split at hstep
    · next hfree =>
      obtain rfl := Option.some.inj hstep
      exact .take hfree.1 ⟨hp.1, held, rfl, h⟩
    · obtain rfl := Option.some.inj hstep
      exact .keep ⟨hp.2, h⟩
  | wait m =>
    obtain rfl := Option.some.inj hstep
    obtain rfl : held = [m] := hp
    exact .give rfl ⟨rfl, h⟩
  | abandon m =>
    obtain rfl := Option.some.inj hstep
    obtain rfl : held = [m] := hp
    exact .give rfl rfl
  | exit =>
    obtain rfl := Option.some.inj hstep
    exact .keep hp
  | ret => exact h.proceeds_ret hstep
  | call p =>
    obtain rfl := Option.some.inj hstep
    exact .keep ⟨hp, h⟩
  | seq p q =>
    obtain rfl := Option.some.inj hstep
    exact .keep ⟨hp.1, hp.2, h⟩
  | choice p q =>
    obtain rfl := Option.some.inj hstep
    refine .keep ⟨?_, h⟩
    split
    · exact hp.1
    · exact hp.2
  | any each =>
    obtain rfl := Option.some.inj hstep
    exact .keep ⟨hp c, h⟩
  | loop p =>
    obtain rfl := Option.some.inj hstep
    refine .keep ?_
    split
    · exact ⟨hp, hp, h⟩
    · exact h

/-- **One step of a thread that fits.** -/
theorem FitsThread.proceeds {next : (M → Option ι) × List (Item M)} (h : FitsThread held todo)
    (hstep : stepThread i c owner todo = some next) : Proceeds i owner held next := by
  rcases todo with - | ⟨item, todo⟩
  · cases hstep
  · cases item with
    | run p => exact Fits.proceeds_run h.1 h.2 hstep
    | release m =>
      obtain rfl := Option.some.inj hstep
      obtain ⟨rest, hheld, hrest⟩ := h
      exact .give hheld hrest.fitsThread
    | reacquire m =>
      obtain ⟨rfl, hrest⟩ := h
      rw [stepThread] at hstep
      split at hstep
      · next hfree =>
        obtain rfl := Option.some.inj hstep
        exact .take hfree hrest
      · cases hstep
    | boundary =>
      obtain rfl := Option.some.inj hstep
      exact .keep h

/-! ### All threads -/

/-- `held` are the locks that thread `i` owns. -/
def Owns (owner : M → Option ι) (i : ι) (held : List M) : Prop :=
  held.Nodup ∧ ∀ m, owner m = some i ↔ m ∈ held

namespace Exchange

variable {held' : List M}

theorem owns (h : Exchange i owner held owner' held') (howns : Owns owner i held) :
    Owns owner' i held' := by
  rcases h with - | ⟨m, hfree⟩ | ⟨m, _, rfl⟩
  · exact howns
  · have hnot : m ∉ held := fun hm ↦ by
      have howner := (howns.2 m).2 hm
      rw [hfree] at howner
      cases howner
    refine ⟨List.nodup_cons.2 ⟨hnot, howns.1⟩, fun m' ↦ ?_⟩
    rcases eq_or_ne m' m with rfl | hne
    · rw [Function.update_self]
      exact iff_of_true rfl List.mem_cons_self
    · rw [Function.update_of_ne hne, howns.2 m', List.mem_cons]
      exact (or_iff_right hne).symm
  · obtain ⟨hnot, hnodup⟩ := List.nodup_cons.1 howns.1
    refine ⟨hnodup, fun m' ↦ ?_⟩
    rcases eq_or_ne m' m with rfl | hne
    · rw [Function.update_self]
      exact iff_of_false nofun hnot
    · rw [Function.update_of_ne hne, howns.2 m', List.mem_cons]
      exact or_iff_right hne

/-- Nobody else's locks are touched. -/
theorem owns_other (h : Exchange i owner held owner' held') (howns : Owns owner i held) {j : ι}
    (hj : j ≠ i) {other : List M} (hother : Owns owner j other) : Owns owner' j other := by
  refine ⟨hother.1, fun m' ↦ ?_⟩
  rw [← hother.2 m']
  rcases h with - | ⟨m, hfree⟩ | ⟨m, _, rfl⟩
  · exact Iff.rfl
  · rcases eq_or_ne m' m with rfl | hne
    · rw [Function.update_self, hfree]
      exact iff_of_false (fun heq ↦ hj (Option.some.inj heq).symm) nofun
    · rw [Function.update_of_ne hne]
  · rcases eq_or_ne m' m with rfl | hne
    · rw [Function.update_self, (howns.2 m').2 List.mem_cons_self]
      exact iff_of_false nofun fun heq ↦ hj (Option.some.inj heq).symm
    · rw [Function.update_of_ne hne]

end Exchange

/-- Every thread fits the locks it owns. -/
def Inv (s : State ι M) : Prop :=
  ∀ i, ∃ held, FitsThread held (s.control i) ∧ Owns s.owner i held

variable [DecidableEq ι] {s s' : State ι M}

omit [DecidableEq M] [DecidableEq ι] in
theorem inv_start {program : ι → Prog M} (h : ∀ i, (program i).Disciplined []) :
    Inv (start program) :=
  fun i ↦ ⟨[], ⟨h i, rfl⟩, List.nodup_nil, fun _ ↦ iff_of_false nofun List.not_mem_nil⟩

theorem Inv.step (h : Inv s) {a : ι × ℕ} (hstep : step s a = some s') : Inv s' := by
  obtain ⟨next, hthread, rfl⟩ := Option.map_eq_some_iff.1 hstep
  obtain ⟨held, hfits, howns⟩ := h a.1
  obtain ⟨held', hexch, hfits'⟩ := hfits.proceeds hthread
  intro j
  rcases eq_or_ne j a.1 with rfl | hne
  · refine ⟨held', ?_, hexch.owns howns⟩
    show FitsThread held' (Function.update s.control a.1 next.2 a.1)
    rwa [Function.update_self]
  · obtain ⟨other, hother, hownsOther⟩ := h j
    refine ⟨other, ?_, hexch.owns_other howns hne hownsOther⟩
    show FitsThread other (Function.update s.control a.1 next.2 j)
    rwa [Function.update_of_ne hne]

/-- `s` can be reached when every thread runs its program. -/
def Reachable (program : ι → Prog M) (s : State ι M) : Prop :=
  Machine.Reachable step (start program) s

variable {program : ι → Prog M}

theorem Reachable.inv (h : Reachable program s) (hprog : ∀ i, (program i).Disciplined []) : Inv s :=
  Machine.Reachable.invariant h (inv_start hprog) fun _ hinv hstep ↦ hinv.step hstep

/-- **Whoever waits for a lock holds none.** -/
theorem Reachable.not_holding_of_wants (h : Reachable program s)
    (hprog : ∀ i, (program i).Disciplined []) {m m' : M} (hwants : wants (s.control i) = some m) :
    s.owner m' ≠ some i := by
  obtain ⟨held, hfits, howns⟩ := h.inv hprog i
  obtain rfl := hfits.eq_nil_of_wants hwants
  exact fun howner ↦ List.not_mem_nil ((howns.2 m').1 howner)

/-- A thread that another waits for does not wait itself. -/
theorem Reachable.wants_eq_none_of_waitsFor (h : Reachable program s)
    (hprog : ∀ i, (program i).Disciplined []) {j : ι} (hwaits : s.WaitsFor i j) :
    wants (s.control j) = none := by
  obtain ⟨m, -, howner⟩ := hwaits
  exact Option.eq_none_iff_forall_ne_some.2 fun m' hwants ↦
    h.not_holding_of_wants hprog hwants howner

/-- **Nobody waits in a circle.** -/
theorem Reachable.not_circular (h : Reachable program s) (hprog : ∀ i, (program i).Disciplined [])
    (i : ι) : ¬ Relation.TransGen s.WaitsFor i i := by
  intro hcircle
  obtain ⟨j, ⟨m, hwants, -⟩, -⟩ := Relation.TransGen.head'_iff.1 hcircle
  obtain ⟨k, -, hwaits⟩ := Relation.TransGen.tail'_iff.1 hcircle
  rw [h.wants_eq_none_of_waitsFor hprog hwaits] at hwants
  cases hwants

/-! ### Someone can go on -/

omit [DecidableEq ι] in
theorem Fits.isSome_stepThread_ret (h : Fits held todo) :
    (stepThread i c owner (.run .ret :: todo)).isSome = true := by
  rcases todo with - | ⟨item, todo⟩
  · rfl
  · rcases item with p | m | m | -
    · rfl
    · rfl
    · exact h.elim
    · rfl

omit [DecidableEq ι] in
/-- A thread that wants no lock can take a step. -/
theorem FitsThread.isSome_stepThread (h : FitsThread held todo) (htodo : todo ≠ [])
    (hwants : wants todo = none) : (stepThread i c owner todo).isSome = true := by
  rcases todo with - | ⟨item, todo⟩
  · exact absurd rfl htodo
  · rcases item with p | m | m | -
    · rcases p with - | ⟨m, p⟩ | ⟨m, p⟩ | m | m | - | - | p | ⟨p, q⟩ | ⟨p, q⟩ | each | p
      case scope => cases hwants
      case tryScope =>
        rw [stepThread]
        split
        · rfl
        · rfl
      case ret => exact h.2.isSome_stepThread_ret
      all_goals rfl
    · rfl
    · cases hwants
    · rfl

omit [DecidableEq ι] in
/-- A thread gets the lock it wants if it is free. -/
theorem isSome_stepThread_of_free {m : M} (hfree : owner m = none) : ∀ {todo : List (Item M)},
    wants todo = some m → (stepThread i c owner todo).isSome = true
  | .run (.scope _ _) :: _, hwants => by
    obtain rfl := Option.some.inj hwants
    rw [stepThread, if_pos hfree]
    rfl
  | .reacquire _ :: _, hwants => by
    obtain rfl := Option.some.inj hwants
    rw [stepThread, if_pos hfree]
    rfl

/-- A thread that has something to do and wants no lock can go on. -/
theorem Inv.isSome_step (h : Inv s) (hbusy : s.control i ≠ []) (hwants : wants (s.control i) = none)
    (c : ℕ) : (Locks.step s (i, c)).isSome = true := by
  obtain ⟨held, hfits, -⟩ := h i
  rw [Locks.step, Option.isSome_map]
  exact hfits.isSome_stepThread hbusy hwants

omit [DecidableEq M] [DecidableEq ι] in
/-- Whoever owns a lock has something to do. -/
theorem Inv.control_ne_nil (h : Inv s) {m : M} (howner : s.owner m = some i) :
    s.control i ≠ [] := by
  obtain ⟨held, hfits, howns⟩ := h i
  intro hnil
  rw [hnil] at hfits
  obtain rfl : held = [] := hfits
  exact List.not_mem_nil ((howns.2 m).1 howner)

/-- **No deadlock.** A thread that is not over can go on, or waits for one that can. -/
theorem Reachable.goes_on (h : Reachable program s) (hprog : ∀ i, (program i).Disciplined [])
    (hbusy : s.control i ≠ []) :
    (step s (i, 0)).isSome = true ∨ ∃ j, s.WaitsFor i j ∧ (step s (j, 0)).isSome = true := by
  have hinv := h.inv hprog
  rcases hwants : wants (s.control i) with - | m
  · exact Or.inl (hinv.isSome_step hbusy hwants 0)
  · rcases howner : s.owner m with - | j
    · refine Or.inl ?_
      rw [step, Option.isSome_map]
      exact isSome_stepThread_of_free howner hwants
    · have hwaits : s.WaitsFor i j := ⟨m, hwants, howner⟩
      have hnone := h.wants_eq_none_of_waitsFor hprog hwaits
      exact Or.inr ⟨j, hwaits, hinv.isSome_step (hinv.control_ne_nil howner) hnone 0⟩

end Soundness

end Locks
