import NanoSensor.Foundation.Calls

/-!
# Monitors

A `Monitor` watches the calls of a program: it has a state, which every call and its reply may
change, and it says which calls are allowed in which state. Handles that have to be closed, a
privilege that has to be given back, a protocol that has to be followed are monitors.

`Obeys m Q E p s` says of every run of `p` that begins in the state `s` of the monitor that each
call is allowed where it is made, and that the run returns in a state as `Q` says and leaves in a
state as `E` says. There is one rule for each construct, so that a function is judged once and its
callers use the judgement (`Obeys.bind`). `Obeys.steps` reads it off for a run: the state is then
that of the calls made, `m.after s t`.
-/

namespace Calls

variable {C : Type} {R : C → Type} {σ ε α β : Type}

/-- A watch over calls. -/
structure Monitor (C : Type) (R : C → Type) (σ : Type) where
  next : σ → Event C R → σ
  Allows : σ → C → Prop

namespace Monitor

/-- The state after some calls. -/
def after (m : Monitor C R σ) (s : σ) (t : List (Event C R)) : σ :=
  t.foldl m.next s

end Monitor

namespace Prog

/-- Every run of the program from the state `s` makes allowed calls only, returns as `Q` says and
leaves as `E` says. -/
def Obeys (m : Monitor C R σ) (Q : σ → α → Prop) (E : σ → ε → Prop) : Prog C R ε α → σ → Prop
  | done a, s => Q s a
  | exit e, s => E s e
  | call c next, s => m.Allows s c ∧ ∀ r, Obeys m Q E (next r) (m.next s ⟨c, r⟩)

variable {m : Monitor C R σ} {Q Q' : σ → α → Prop} {E E' : σ → ε → Prop} {p p' : Prog C R ε α}
  {s : σ}

/-- **What is left of a run obeys**, in the state its calls have led to. -/
theorem Obeys.steps {t : List (Event C R)} (hp : Obeys m Q E p s) (hsteps : Steps p t p') :
    Obeys m Q E p' (m.after s t) := by
  induction hsteps generalizing s with
  | refl p => exact hp
  | call _ ih => exact ih (hp.2 _)

/-- The rule of consequence. -/
theorem Obeys.mono (hp : Obeys m Q E p s) (hQ : ∀ s a, Q s a → Q' s a)
    (hE : ∀ s e, E s e → E' s e) : Obeys m Q' E' p s := by
  induction p generalizing s with
  | done a => exact hQ s a hp
  | exit e => exact hE s e hp
  | call c next ih => exact ⟨hp.1, fun r ↦ ih r (hp.2 r)⟩

theorem Obeys.bind {S : σ → β → Prop} {f : α → Prog C R ε β} (hp : Obeys m Q E p s)
    (hf : ∀ s a, Q s a → Obeys m S E (f a) s) : Obeys m S E (p >>= f) s := by
  induction p generalizing s with
  | done a => exact hf s a hp
  | exit e => exact hp
  | call c next ih => exact ⟨hp.1, fun r ↦ ih r (hp.2 r)⟩

end Prog

end Calls
