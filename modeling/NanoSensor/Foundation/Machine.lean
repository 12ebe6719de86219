import Mathlib.Data.List.Basic

/-!
# Machines

A machine is a partial function that takes a state and an action to the next state; an action that
is not possible in a state has none. Concurrent programs are modelled so: an action is one atomic
step of one thread, and a run is any sequence of actions that were all possible, which is to say any
interleaving.

`Reachable.invariant` is the rule for safety properties: what holds at the start and is kept by
every step holds in every reachable state.
-/

universe u v

namespace Machine

variable {σ : Type u} {α : Type v} {step : σ → α → Option σ} {s s' : σ}

/-- The state after a sequence of actions, if all of them were possible. -/
def run (step : σ → α → Option σ) (s : σ) (actions : List α) : Option σ :=
  actions.foldlM step s

/-- The states a machine can get to. -/
def Reachable (step : σ → α → Option σ) (start s : σ) : Prop :=
  ∃ actions, run step start actions = some s

theorem run_cons (step : σ → α → Option σ) (s : σ) (a : α) (actions : List α) :
    run step s (a :: actions) = (step s a).bind (run step · actions) := rfl

theorem run_append (step : σ → α → Option σ) (s : σ) (actions more : List α) :
    run step s (actions ++ more) = (run step s actions).bind (run step · more) := by
  rw [run, List.foldlM_append]
  rfl

/-- **What every step keeps, every run keeps.** -/
theorem run_invariant {Inv : σ → Prop}
    (hstep : ∀ {s s' : σ} (a : α), Inv s → step s a = some s' → Inv s') (actions : List α) :
    ∀ {s s' : σ}, Inv s → run step s actions = some s' → Inv s' := by
  induction actions with
  | nil =>
    intro s s' hs hrun
    obtain rfl : s = s' := Option.some.inj hrun
    exact hs
  | cons a actions ih =>
    intro s s' hs hrun
    rw [run_cons, Option.bind_eq_some_iff] at hrun
    obtain ⟨s₁, hfirst, hrest⟩ := hrun
    exact ih (hstep a hs hfirst) hrest

/-- The same for a run that has only some of the actions. -/
theorem run_invariant_of_forall {Inv : σ → Prop} {Allowed : α → Prop}
    (hstep : ∀ {s s' : σ} (a : α), Allowed a → Inv s → step s a = some s' → Inv s')
    {actions : List α} (hactions : ∀ a ∈ actions, Allowed a) (hs : Inv s)
    (hrun : run step s actions = some s') : Inv s' := by
  induction actions generalizing s with
  | nil =>
    obtain rfl : s = s' := Option.some.inj hrun
    exact hs
  | cons a actions ih =>
    rw [run_cons, Option.bind_eq_some_iff] at hrun
    obtain ⟨s₁, hfirst, hrest⟩ := hrun
    rw [List.forall_mem_cons] at hactions
    exact ih hactions.2 (hstep a hactions.1 hs hfirst) hrest

/-- **The rule for invariants.** -/
theorem Reachable.invariant {Inv : σ → Prop} {start : σ} (h : Reachable step start s)
    (hstart : Inv start)
    (hstep : ∀ {s s' : σ} (a : α), Inv s → step s a = some s' → Inv s') : Inv s := by
  obtain ⟨actions, hrun⟩ := h
  exact run_invariant hstep actions hstart hrun

theorem Reachable.run {start : σ} (h : Reachable step start s) {actions : List α}
    (hrun : run step s actions = some s') : Reachable step start s' := by
  obtain ⟨front, hfront⟩ := h
  refine ⟨front ++ actions, ?_⟩
  rw [run_append, hfront, Option.bind_some, hrun]

/-- A run that goes through ends in a reachable state. -/
theorem reachable_of_isSome {start : σ} {actions : List α}
    (h : (Machine.run step start actions).isSome = true) :
    Reachable step start ((Machine.run step start actions).get h) :=
  ⟨actions, (Option.some_get h).symm⟩

/-- **A machine that takes the steps of another, or none, stays where the other can get.** -/
theorem Reachable.project {τ : Type*} {β : Type*} {step' : τ → β → Option τ} {start : σ}
    (f : σ → τ) (h : Reachable step start s)
    (hstep : ∀ {s s' : σ} (a : α), step s a = some s' →
      f s' = f s ∨ ∃ b, step' (f s) b = some (f s')) :
    Reachable step' (f start) (f s) := by
  have hkeep : ∀ {s s' : σ} (a : α), Reachable step' (f start) (f s) → step s a = some s' →
      Reachable step' (f start) (f s') := by
    intro s s' a hs hnext
    rcases hstep a hnext with heq | ⟨b, hb⟩
    · rw [heq]
      exact hs
    · have hrun : Machine.run step' (f s) [b] = some (f s') := by rw [run_cons, hb]; rfl
      exact hs.run hrun
  exact h.invariant ⟨[], rfl⟩ hkeep

/-- The machine with only those actions that are allowed in the state they are taken in. -/
def guarded (step : σ → α → Option σ) (Allowed : σ → α → Prop) [∀ s a, Decidable (Allowed s a)] :
    σ → α → Option σ :=
  fun s a ↦ if Allowed s a then step s a else none

theorem guarded_eq_some {Allowed : σ → α → Prop} [∀ s a, Decidable (Allowed s a)] {a : α} :
    guarded step Allowed s a = some s' ↔ Allowed s a ∧ step s a = some s' :=
  Option.ite_none_right_eq_some

/-- How many steps of a run count. -/
def tally (step : σ → α → Option σ) (counts : σ → α → Bool) : σ → List α → ℕ
  | _, [] => 0
  | s, a :: actions =>
    (if counts s a then 1 else 0) + ((step s a).map (tally step counts · actions)).getD 0

/-- **The rule for bounds.** If no step takes the rank up, and the steps that count take it down,
then not more than that many of them are left. -/
theorem tally_le {Inv : σ → Prop} {rank : σ → ℕ} {counts : σ → α → Bool}
    (hstep : ∀ {s s' : σ} (a : α), Inv s → step s a = some s' →
      Inv s' ∧ rank s' + (if counts s a then 1 else 0) ≤ rank s) (actions : List α) :
    ∀ {s s' : σ}, Inv s → run step s actions = some s' →
      tally step counts s actions + rank s' ≤ rank s := by
  induction actions with
  | nil =>
    intro s s' _ hrun
    obtain rfl : s = s' := Option.some.inj hrun
    exact Nat.le_of_eq (Nat.zero_add _)
  | cons a actions ih =>
    intro s s' hs hrun
    rw [run_cons, Option.bind_eq_some_iff] at hrun
    obtain ⟨s₁, hfirst, hrest⟩ := hrun
    obtain ⟨hs₁, hle⟩ := hstep a hs hfirst
    have hrec := ih hs₁ hrest
    rw [tally, hfirst, Option.map_some, Option.getD_some]
    omega

end Machine
