import Mathlib.Data.Nat.Notation
import Mathlib.Logic.Basic

/-!
# Programs that make calls

A function that is a sequence of calls to other libraries, each of which may fail and most of which
are followed by an early return, is a `Calls.Prog`: it returns a value, leaves with one, or makes a
call and goes on with the reply. Nothing is said about the replies, so what is proved of a program
holds whatever the libraries do.

`Steps p t p'` says that `p` can make the calls `t`, with those replies, and that `p'` is then left
to do. `Meets K Q E p h` says of every run of `p`, when the calls of `h` have been made before, that
each call it makes is allowed by `K`, that it returns as `Q` says and that it leaves as `E` says;
each of the three may look at all calls made so far (`Meets.steps`). There is one rule for each
construct. `OnlyCalls P p` is the part of this that does not look back, and
`OnlyCalls.meets` brings it in: what calls in `P` preserve is kept by a program that makes no
others. `AtMost n p` bounds the calls of a program, so that it comes to an end if every call does.

`Guard` is for a program with a check in the middle, which has to come before certain calls
(`Guard.meets`).
-/

namespace Calls

variable {C : Type} {R : C → Type} {δ ε α β : Type}

/-- A program over the calls `C` with replies `R`, which returns an `α` or leaves with an `ε`. -/
inductive Prog (C : Type) (R : C → Type) (ε α : Type)
  | done (a : α)
  | exit (e : ε)
  | call (c : C) (next : R c → Prog C R ε α)

/-- A call that was made, and its reply. -/
abbrev Event (C : Type) (R : C → Type) : Type :=
  (c : C) × R c

namespace Prog

/-- Go on with what `p` returns. -/
def bind : Prog C R ε α → (α → Prog C R ε β) → Prog C R ε β
  | done a, f => f a
  | exit e, _ => exit e
  | call c next, f => call c fun r ↦ (next r).bind f

instance : Monad (Prog C R ε) where
  pure := done
  bind := bind

/-- One call. -/
def perform (c : C) : Prog C R ε (R c) :=
  call c done

/-- `if (!b) { ...; return; }`. -/
def require (b : Bool) (otherwise : Prog C R ε Unit) : Prog C R ε Unit :=
  if b then done () else otherwise

/-- The value of a function that may fail, and what to do if it has failed. -/
def unwrap (x : Except δ α) (failed : δ → Prog C R ε α) : Prog C R ε α :=
  match x with
  | .error e => failed e
  | .ok a => done a

/-! ### Runs -/

/-- `p` can make the calls `t`, and then `p'` is left. -/
inductive Steps : Prog C R ε α → List (Event C R) → Prog C R ε α → Prop
  | refl (p : Prog C R ε α) : Steps p [] p
  | call {c : C} {next : R c → Prog C R ε α} {r : R c} {t : List (Event C R)} {p : Prog C R ε α}
    (h : Steps (next r) t p) : Steps (.call c next) (⟨c, r⟩ :: t) p

/-- A run that returns, and a run of what follows. -/
theorem Steps.bind {p : Prog C R ε α} {f : α → Prog C R ε β} {a : α} {t t' : List (Event C R)}
    {q : Prog C R ε β} (hp : Steps p t (.done a)) (hf : Steps (f a) t' q) :
    Steps (p >>= f) (t ++ t') q := by
  generalize hdone : Prog.done a = p' at hp
  induction hp with
  | refl p =>
    subst hdone
    exact hf
  | call _ ih => exact .call (ih hdone)

/-- Behind the calls `h`, every run of `p` makes calls as `K` says, returns as `Q` says and leaves
as `E` says. -/
def Meets (K : List (Event C R) → C → Prop) (Q : List (Event C R) → α → Prop)
    (E : List (Event C R) → ε → Prop) : Prog C R ε α → List (Event C R) → Prop
  | done a, h => Q h a
  | exit e, h => E h e
  | call c next, h => K h c ∧ ∀ r, Meets K Q E (next r) (h ++ [⟨c, r⟩])

section Meets

variable {K K' : List (Event C R) → C → Prop} {Q Q' : List (Event C R) → α → Prop}
  {E E' : List (Event C R) → ε → Prop} {p p' : Prog C R ε α} {h t : List (Event C R)}

/-- **What is left of a run meets what the program meets**, behind the calls it has made. -/
theorem Meets.steps (hp : Meets K Q E p h) (hsteps : Steps p t p') : Meets K Q E p' (h ++ t) := by
  induction hsteps generalizing h with
  | refl p => rwa [List.append_nil]
  | call _ ih =>
    have hrest := ih (hp.2 _)
    rwa [List.append_assoc] at hrest

/-- The rule of consequence. -/
theorem Meets.mono (hp : Meets K Q E p h) (hK : ∀ h c, K h c → K' h c)
    (hQ : ∀ h a, Q h a → Q' h a) (hE : ∀ h e, E h e → E' h e) : Meets K' Q' E' p h := by
  induction p generalizing h with
  | done a => exact hQ h a hp
  | exit e => exact hE h e hp
  | call c next ih => exact ⟨hK h c hp.1, fun r ↦ ih r (hp.2 r)⟩

theorem Meets.bind {S : List (Event C R) → β → Prop} {f : α → Prog C R ε β}
    (hp : Meets K Q E p h) (hf : ∀ h a, Q h a → Meets K S E (f a) h) :
    Meets K S E (p >>= f) h := by
  induction p generalizing h with
  | done a => exact hf h a hp
  | exit e => exact hp
  | call c next ih => exact ⟨hp.1, fun r ↦ ih r (hp.2 r)⟩

/-- With nothing asked, there is nothing to show. -/
theorem meets_true (p : Prog C R ε α) (h : List (Event C R)) :
    Meets (fun _ _ ↦ True) (fun _ _ ↦ True) (fun _ _ ↦ True) p h := by
  induction p generalizing h with
  | done a => trivial
  | exit e => trivial
  | call c next ih => exact ⟨trivial, fun r ↦ ih r _⟩

end Meets

/-! ### Programs that make certain calls only -/

/-- Every call that `p` may make is in `P`. -/
def OnlyCalls (P : C → Prop) : Prog C R ε α → Prop
  | done _ => True
  | exit _ => True
  | call c next => P c ∧ ∀ r, OnlyCalls P (next r)

section OnlyCalls

variable {P P' : C → Prop} {p : Prog C R ε α}

theorem onlyCalls_pure (a : α) : OnlyCalls P (pure a : Prog C R ε α) := trivial

theorem onlyCalls_exit (e : ε) : OnlyCalls P (exit e : Prog C R ε α) := trivial

theorem onlyCalls_perform {c : C} (hc : P c) : OnlyCalls P (perform c : Prog C R ε (R c)) :=
  ⟨hc, fun _ ↦ trivial⟩

theorem OnlyCalls.mono (hp : OnlyCalls P p) (h : ∀ c, P c → P' c) : OnlyCalls P' p := by
  induction p with
  | done a => trivial
  | exit e => trivial
  | call c next ih => exact ⟨h c hp.1, fun r ↦ ih r (hp.2 r)⟩

theorem OnlyCalls.bind {f : α → Prog C R ε β} (hp : OnlyCalls P p) (hf : ∀ a, OnlyCalls P (f a)) :
    OnlyCalls P (p >>= f) := by
  induction p with
  | done a => exact hf a
  | exit e => trivial
  | call c next ih => exact ⟨hp.1, fun r ↦ ih r (hp.2 r)⟩

theorem OnlyCalls.require {b : Bool} {otherwise : Prog C R ε Unit} (h : OnlyCalls P otherwise) :
    OnlyCalls P (require b otherwise) := by
  rw [Prog.require]
  split
  · trivial
  · exact h

theorem OnlyCalls.unwrap {x : Except δ α} {failed : δ → Prog C R ε α}
    (h : ∀ e, OnlyCalls P (failed e)) : OnlyCalls P (unwrap x failed) := by
  rcases x with e | a
  · exact h e
  · trivial

/-- **What the calls in `P` preserve** is kept by a program that makes no others. -/
theorem OnlyCalls.meets (hp : OnlyCalls P p) {I : List (Event C R) → Prop}
    {K : List (Event C R) → C → Prop} (hK : ∀ h c, I h → P c → K h c)
    (hI : ∀ h c r, I h → P c → I (h ++ [⟨c, r⟩])) {h : List (Event C R)} (hh : I h) :
    Meets K (fun h _ ↦ I h) (fun h _ ↦ I h) p h := by
  induction p generalizing h with
  | done a => exact hh
  | exit e => exact hh
  | call c next ih => exact ⟨hK h c hh hp.1, fun r ↦ ih r (hp.2 r) (hI h c r hh hp.1)⟩

end OnlyCalls

/-! ### Programs that make so many calls at most -/

/-- No run of `p` makes more than `n` calls: it has returned or left by then. -/
def AtMost : ℕ → Prog C R ε α → Prop
  | _, done _ => True
  | _, exit _ => True
  | 0, call _ _ => False
  | n + 1, call _ next => ∀ r, AtMost n (next r)

section AtMost

variable {m n : ℕ} {p : Prog C R ε α}

theorem atMost_pure (a : α) : AtMost n (pure a : Prog C R ε α) := by
  cases n <;> trivial

theorem atMost_exit (e : ε) : AtMost n (exit e : Prog C R ε α) := by
  cases n <;> trivial

theorem AtMost.mono (hp : AtMost m p) (hle : m ≤ n) : AtMost n p := by
  induction p generalizing m n with
  | done a => exact atMost_pure a
  | exit e => exact atMost_exit e
  | call c next ih =>
    cases m with
    | zero => exact hp.elim
    | succ m =>
      cases n with
      | zero => exact absurd hle (Nat.not_succ_le_zero m)
      | succ n => exact fun r ↦ ih r (hp r) (Nat.le_of_succ_le_succ hle)

theorem AtMost.perform {c : C} {f : R c → Prog C R ε α} (hf : ∀ r, AtMost n (f r)) :
    AtMost (n + 1) (perform c >>= f) :=
  hf

theorem AtMost.bind {f : α → Prog C R ε β} (hp : AtMost m p) (hf : ∀ a, AtMost n (f a)) :
    AtMost (m + n) (p >>= f) := by
  induction m generalizing p with
  | zero =>
    cases p with
    | done a => rw [Nat.zero_add]; exact hf a
    | exit e => exact atMost_exit e
    | call c next => exact hp.elim
  | succ m ih =>
    rw [Nat.succ_add]
    cases p with
    | done a => exact (hf a).mono (by omega)
    | exit e => trivial
    | call c next => exact fun r ↦ ih (hp r)

theorem AtMost.length_le {t : List (Event C R)} {p' : Prog C R ε α} (hp : AtMost n p)
    (hsteps : Steps p t p') : t.length ≤ n := by
  induction hsteps generalizing n with
  | refl p => exact Nat.zero_le n
  | call _ ih =>
    cases n with
    | zero => exact hp.elim
    | succ n => exact Nat.succ_le_succ (ih (hp _))

end AtMost

end Prog

/-! ### A check in the middle -/

/-- A check that a program makes by calls: which calls belong to it, by which of their replies it
fails, and when it counts as passed. -/
structure Guard (C : Type) (R : C → Type) where
  Concerns : C → Prop
  Fails : Event C R → Prop
  Passed : List (Event C R) → Prop
  concerns_of_fails : ∀ {e : Event C R}, Fails e → Concerns e.1
  passed_append : ∀ {t : List (Event C R)}, Passed t → ∀ e, Passed (t ++ [e])

namespace Guard

variable (g : Guard C R) {t : List (Event C R)}

/-- The check has failed. -/
def Failed (t : List (Event C R)) : Prop :=
  ∃ e ∈ t, g.Fails e

variable {g}

theorem not_failed_append {e : Event C R} (h : ¬ g.Failed t) (he : ¬ g.Fails e) :
    ¬ g.Failed (t ++ [e]) := by
  rintro ⟨e', hmem, hfails⟩
  rcases List.mem_append.1 hmem with hmem | hmem
  · exact h ⟨e', hmem, hfails⟩
  · rw [List.mem_singleton.1 hmem] at hfails
    exact he hfails

theorem not_failed_append_of_not_concerns {c : C} (r : R c) (h : ¬ g.Failed t)
    (hc : ¬ g.Concerns c) : ¬ g.Failed (t ++ [⟨c, r⟩]) :=
  not_failed_append h fun hfails ↦ hc (g.concerns_of_fails hfails)

open Prog

/-- **The check comes first.** In a program with a check in the middle, calls that `P` marks are
made only when it has passed; and when it has failed, the program leaves as `Refused` says. -/
theorem meets {P : C → Prop} {Refused : ε → Prop} {pre : Prog C R ε β}
    {check : Prog C R ε (Except δ Unit)} {failed : β → δ → Prog C R ε Unit}
    {rest : β → Prog C R ε α} (hpre : OnlyCalls (fun c ↦ ¬ g.Concerns c ∧ ¬ P c) pre)
    (hcheck : ∀ t, ¬ g.Failed t → Meets (fun t c ↦ P c → g.Passed t ∧ ¬ g.Failed t)
      (fun t v ↦ v = .ok () → g.Passed t ∧ ¬ g.Failed t) (fun _ e ↦ Refused e) check t)
    (hfailed : ∀ b e t, Meets (fun _ c ↦ ¬ P c) (fun _ _ ↦ False) (fun _ e ↦ Refused e)
      (failed b e) t)
    (hrest : ∀ b, OnlyCalls (fun c ↦ ¬ g.Concerns c) (rest b)) :
    Meets (fun t c ↦ P c → g.Passed t ∧ ¬ g.Failed t) (fun t _ ↦ ¬ g.Failed t)
      (fun t e ↦ g.Failed t → Refused e)
      (do let b ← pre; let v ← check; unwrap v (failed b); rest b) [] := by
  have hbefore : Meets (fun t c ↦ P c → g.Passed t ∧ ¬ g.Failed t) (fun t _ ↦ ¬ g.Failed t)
      (fun t e ↦ g.Failed t → Refused e) pre [] := by
    have hkept := hpre.meets (I := fun t ↦ ¬ g.Failed t)
      (K := fun t c ↦ P c → g.Passed t ∧ ¬ g.Failed t)
      (fun _ _ _ hc hP ↦ absurd hP hc.2)
      (fun _ _ r hnot hc ↦ not_failed_append_of_not_concerns r hnot hc.1)
      (h := []) fun hnil ↦ by simp [Failed] at hnil
    exact hkept.mono (fun _ _ ↦ id) (fun _ _ ↦ id) fun _ _ hnot hfailed ↦ absurd hfailed hnot
  refine hbefore.bind fun t b hnot ↦ ?_
  have hchecked : Meets (fun t c ↦ P c → g.Passed t ∧ ¬ g.Failed t)
      (fun t v ↦ v = .ok () → g.Passed t ∧ ¬ g.Failed t) (fun t e ↦ g.Failed t → Refused e)
      check t :=
    (hcheck t hnot).mono (fun _ _ ↦ id) (fun _ _ ↦ id) fun _ _ hrefused _ ↦ hrefused
  refine hchecked.bind fun t v hv ↦ ?_
  rcases v with e | u
  · -- what is done about a failed check does not return
    have hleaves : Meets (fun t c ↦ P c → g.Passed t ∧ ¬ g.Failed t) (fun _ _ ↦ False)
        (fun t e ↦ g.Failed t → Refused e) (failed b e) t :=
      (hfailed b e t).mono (fun _ _ hc hP ↦ absurd hP hc) (fun _ _ ↦ id)
        fun _ _ hrefused _ ↦ hrefused
    exact hleaves.bind fun _ _ hfalse ↦ hfalse.elim
  · have hkept := (hrest b).meets (I := fun t ↦ g.Passed t ∧ ¬ g.Failed t)
      (K := fun t c ↦ P c → g.Passed t ∧ ¬ g.Failed t) (fun _ _ hI _ _ ↦ hI)
      (fun _ _ r hI hc ↦
        ⟨g.passed_append hI.1 _, not_failed_append_of_not_concerns r hI.2 hc⟩) (hv rfl)
    exact hkept.mono (fun _ _ ↦ id) (fun _ _ hI ↦ hI.2) fun _ _ hI hfailed ↦ absurd hfailed hI.2

end Guard

end Calls
