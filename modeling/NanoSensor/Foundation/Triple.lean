import Mathlib.Logic.Basic

/-!
# Programs that stop with an error

A member function that works on an object and may `return fail(...)` at any point is an `EStateM`: a
program on a state that returns a value or stops with an error, and whose state is whatever it was
when it stopped. `Triple P x Q E` says what it does from every state in `P`: it returns with `Q`, or
stops with `E`. The rules below are one for each construct a program is written with.
-/

namespace EStateM

variable {ε σ α β γ : Type} {P P' : σ → Prop} {x : EStateM ε σ α} {Q Q' : α → σ → Prop}
  {E E' : ε → σ → Prop}

/-- The program returned as `Q` says or stopped as `E` says. -/
def Result.Meets (Q : α → σ → Prop) (E : ε → σ → Prop) : Result ε σ α → Prop
  | .ok a s => Q a s
  | .error e s => E e s

/-- What the program does from every state in `P`. -/
def Triple (P : σ → Prop) (x : EStateM ε σ α) (Q : α → σ → Prop) (E : ε → σ → Prop) : Prop :=
  ∀ s, P s → (x s).Meets Q E

namespace Triple

theorem of_ok (h : Triple P x Q E) {s s' : σ} {a : α} (hs : P s) (hx : x s = .ok a s') :
    Q a s' := by
  have := h s hs
  rwa [hx] at this

theorem of_error (h : Triple P x Q E) {s s' : σ} {e : ε} (hs : P s) (hx : x s = .error e s') :
    E e s' := by
  have := h s hs
  rwa [hx] at this

/-- The rule of consequence. -/
theorem mono (h : Triple P x Q E) (hP : ∀ s, P' s → P s) (hQ : ∀ a s, Q a s → Q' a s)
    (hE : ∀ e s, E e s → E' e s) : Triple P' x Q' E' := by
  intro s hs
  rcases hx : x s with ⟨a, s'⟩ | ⟨e, s'⟩
  · exact hQ a s' (h.of_ok (hP s hs) hx)
  · exact hE e s' (h.of_error (hP s hs) hx)

theorem error_mono (h : Triple P x Q E) (hE : ∀ e s, E e s → E' e s) : Triple P x Q E' :=
  h.mono (fun _ ↦ id) (fun _ _ ↦ id) hE

/-- What does not depend on the state can be assumed. -/
theorem assume {p : Prop} (h : p → Triple P x Q E) : Triple (fun s ↦ p ∧ P s) x Q E :=
  fun s hs ↦ h hs.1 s hs.2

theorem pure {a : α} (h : ∀ s, P s → Q a s) : Triple P (Pure.pure a : EStateM ε σ α) Q E :=
  h

theorem throw {e : ε} (h : ∀ s, P s → E e s) : Triple P (MonadExcept.throw e : EStateM ε σ α) Q E :=
  h

/-- One program after another. -/
theorem bind {f : α → EStateM ε σ β} {R : β → σ → Prop} (hx : Triple P x Q E)
    (hf : ∀ a, Triple (Q a) (f a) R E) : Triple P (x >>= f) R E := by
  intro s hs
  show (EStateM.bind x f s).Meets R E
  rcases hxs : x s with ⟨a, s'⟩ | ⟨e, s'⟩
  · simp only [EStateM.bind, hxs]
    exact hf a s' (hx.of_ok hs hxs)
  · simp only [EStateM.bind, hxs]
    exact hx.of_error hs hxs

/-- One program after another, with the errors of the first among those of the whole. -/
theorem seq {f : α → EStateM ε σ β} {R : β → σ → Prop} (hx : Triple P x Q E)
    (hE : ∀ e s, E e s → E' e s) (hf : ∀ a, Triple (Q a) (f a) R E') : Triple P (x >>= f) R E' :=
  (hx.error_mono hE).bind hf

/-- A loop over a list: what holds is told by the part that is done. -/
theorem forM {xs : List γ} {f : γ → EStateM ε σ PUnit} {I : List γ → σ → Prop}
    (h : ∀ done y rest, xs = done ++ y :: rest →
      Triple (I done) (f y) (fun _ ↦ I (done ++ [y])) E) :
    Triple (I []) (xs.forM f) (fun _ ↦ I xs) E := by
  -- induction on what is left, for any part that is done
  suffices key : ∀ rest done, xs = done ++ rest →
      Triple (I done) (rest.forM f) (fun _ ↦ I xs) E from key xs [] rfl
  intro rest
  induction rest with
  | nil =>
    intro done hxs
    rw [List.append_nil] at hxs
    subst hxs
    exact Triple.pure fun _ ↦ id
  | cons y rest ih =>
    intro done hxs
    exact (h done y rest hxs).bind fun _ ↦ ih (done ++ [y]) (by rw [hxs, List.append_assoc]; rfl)

end Triple

end EStateM
