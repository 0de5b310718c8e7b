import Mathlib.Data.Nat.Notation
import Mathlib.Tactic.Basic

/-!
# Outcomes of computations that may abort

A computation that may abort is a value of `Except ε α`. `Outcome.Spec x P E` says of one
such computation both things at once: a returned value satisfies `P`, and an error satisfies
`E`. Partial correctness is the instance with `E` trivial, absence of a class of errors is
the instance with `P` trivial, and total correctness is the instance with `E` false.

The rules follow the shape of a `do` block: one for a returned value, one for a raised
error, one for `>>=`, and consequence. `Loop.whileLoop` adds the one loop such programs need,
a `while` whose body may abort, run under a budget of iterations, with an invariant rule and a
rule that turns a decreasing measure into termination within the budget.
-/

namespace Outcome

universe u v

variable {ε : Type u} {α β : Type v}

/-! ### Specifications of one computation -/

/-- A returned value satisfies `P`, a raised error satisfies `E`. -/
def Spec (x : Except ε α) (P : α → Prop) (E : ε → Prop) : Prop :=
  match x with
  | .ok a => P a
  | .error e => E e

variable {x : Except ε α} {f : α → Except ε β} {P P' : α → Prop} {Q : β → Prop}
  {E E' : ε → Prop}

@[simp]
theorem spec_ok {a : α} : Spec (.ok a : Except ε α) P E ↔ P a := Iff.rfl

@[simp]
theorem spec_error {e : ε} : Spec (.error e : Except ε α) P E ↔ E e := Iff.rfl

/-- The value read off a successful run. -/
theorem Spec.of_ok (h : Spec x P E) {a : α} (hx : x = .ok a) : P a := by
  subst hx
  exact h

/-- The error read off an aborted run. -/
theorem Spec.of_error (h : Spec x P E) {e : ε} (hx : x = .error e) : E e := by
  subst hx
  exact h

/-- A specification from its two halves. -/
theorem Spec.intro (hok : ∀ a, x = .ok a → P a) (herr : ∀ e, x = .error e → E e) :
    Spec x P E := by
  cases x with
  | ok a => exact hok a rfl
  | error e => exact herr e rfl

/-- Partial correctness from the successful runs alone. -/
theorem Spec.of_forall_ok (hok : ∀ a, x = .ok a → P a) : Spec x P fun _ => True :=
  Spec.intro hok fun _ _ => trivial

/-- **Consequence.** -/
theorem Spec.mono (h : Spec x P E) (hP : ∀ a, P a → P' a) (hE : ∀ e, E e → E' e) :
    Spec x P' E' := by
  cases x with
  | ok a => exact hP a h
  | error e => exact hE e h

/-- Consequence on the returned value only. -/
theorem Spec.imp (h : Spec x P E) (hP : ∀ a, P a → P' a) : Spec x P' E :=
  h.mono hP fun _ he => he

/-- Two specifications of one computation hold together. -/
theorem Spec.and (h : Spec x P E) (h' : Spec x P' E') :
    Spec x (fun a => P a ∧ P' a) fun e => E e ∧ E' e := by
  cases x with
  | ok a => exact ⟨h, h'⟩
  | error e => exact ⟨h, h'⟩

/-- A specification may use that its value is the one returned. -/
theorem Spec.and_eq (h : Spec x P E) : Spec x (fun a => P a ∧ x = .ok a) E := by
  cases x with
  | ok a => exact ⟨h, rfl⟩
  | error e => exact h

/-- **Sequencing**: the continuation is specified on every value the first part returns. -/
theorem Spec.bind (hx : Spec x P E) (hf : ∀ a, P a → Spec (f a) Q E) :
    Spec (x >>= f) Q E := by
  cases x with
  | ok a => exact hf a hx
  | error e => exact hx

/-- **Folding**: an invariant of the elements already folded and of the value reached. Each step
knows where in the list it is. -/
theorem Spec.foldlM_split {γ : Type v} {g : β → γ → Except ε β} {J : List γ → β → Prop}
    {cs : List γ} {b : β} (hb : J [] b)
    (hstep : ∀ done c rest b, done ++ c :: rest = cs → J done b →
      Spec (g b c) (J (done ++ [c])) E) :
    Spec (cs.foldlM g b) (J cs) E := by
  suffices h : ∀ (rest done : List γ) (b : β), done ++ rest = cs → J done b →
      Spec (rest.foldlM g b) (J cs) E from h cs [] b rfl hb
  intro rest
  induction rest with
  | nil =>
    intro done b hcs hb
    rw [List.append_nil] at hcs
    rw [← hcs]
    exact hb
  | cons c rest ih =>
    intro done b hcs hb
    rw [List.foldlM_cons]
    refine Spec.bind (hstep done c rest b hcs hb) fun b' hb' => ?_
    exact ih (done ++ [c]) b' (by simpa using hcs) hb'

/-- Folding, where a step need not know more than the element it is about. -/
theorem Spec.foldlM {γ : Type v} {g : β → γ → Except ε β} {J : List γ → β → Prop} {cs : List γ}
    {b : β} (hb : J [] b)
    (hstep : ∀ done c b, c ∈ cs → J done b → Spec (g b c) (J (done ++ [c])) E) :
    Spec (cs.foldlM g b) (J cs) E :=
  Spec.foldlM_split hb fun done c _ b hcs => hstep done c b (by simp [← hcs])

/-- A computation that cannot raise returns. -/
theorem Spec.exists_ok (h : Spec x P fun _ => False) : ∃ a, x = .ok a ∧ P a := by
  cases x with
  | ok a => exact ⟨a, rfl, h⟩
  | error e => exact h.elim

/-! ### Inversion of a successful run -/

@[simp]
theorem ok_bind {a : α} : ((.ok a : Except ε α) >>= f) = f a := rfl

@[simp]
theorem pure_eq_ok {a : α} : (pure a : Except ε α) = .ok a := rfl

@[simp]
theorem error_bind {e : ε} : ((.error e : Except ε α) >>= f) = .error e := rfl

/-- A sequence succeeds exactly when both parts do. -/
theorem bind_eq_ok {b : β} : (x >>= f) = .ok b ↔ ∃ a, x = .ok a ∧ f a = .ok b := by
  cases x with
  | ok a => simp
  | error e => simp

theorem toOption_eq_some {a : α} : x.toOption = some a ↔ x = .ok a := by
  cases x with
  | ok a => simp [Except.toOption]
  | error e => simp [Except.toOption]

end Outcome

/-! ### Bounded `while` loops -/

namespace Loop

open Outcome

universe u v

variable {ε : Type u} {α : Type v}

/-- `while guard { body }` under a budget of iterations; `k` counts the iterations already
made and `overrun` is raised when the budget is exhausted with the guard still true. -/
def whileLoop (guard : ℕ → α → Bool) (body : α → Except ε α) (overrun : ε) :
    (budget k : ℕ) → α → Except ε α
  | 0, k, a => if guard k a then .error overrun else .ok a
  | budget + 1, k, a =>
      if guard k a then body a >>= whileLoop guard body overrun budget (k + 1) else .ok a

variable {guard : ℕ → α → Bool} {body : α → Except ε α} {overrun : ε}

/-- A loop whose guard is false returns its argument. -/
theorem whileLoop_of_not_guard {k : ℕ} {a : α} (h : guard k a = false) (budget : ℕ) :
    whileLoop guard body overrun budget k a = .ok a := by
  cases budget <;> simp [whileLoop, h]

/-- The budget is exhausted with the guard still true. -/
theorem whileLoop_zero_of_guard {k : ℕ} {a : α} (h : guard k a = true) :
    whileLoop guard body overrun 0 k a = .error overrun := by
  simp [whileLoop, h]

/-- One iteration. -/
theorem whileLoop_succ_of_guard {k : ℕ} {a : α} (h : guard k a = true) (budget : ℕ) :
    whileLoop guard body overrun (budget + 1) k a =
      body a >>= whileLoop guard body overrun budget (k + 1) := by
  simp [whileLoop, h]

/-- **Invariant rule.** An invariant kept by every guarded iteration holds on return, where
the guard is false. -/
theorem whileLoop_spec {J : ℕ → α → Prop} {E : ε → Prop} (hover : E overrun)
    (hstep : ∀ k a, J k a → guard k a = true → Spec (body a) (J (k + 1)) E) :
    ∀ (budget k : ℕ) (a : α), J k a →
      Spec (whileLoop guard body overrun budget k a)
        (fun a' => ∃ k', J k' a' ∧ guard k' a' = false) E := by
  intro budget
  induction budget with
  | zero =>
    intro k a hJ
    rcases hg : guard k a with _ | _
    · simpa [whileLoop, hg] using ⟨k, hJ, hg⟩
    · simpa [whileLoop, hg] using hover
  | succ budget ih =>
    intro k a hJ
    rcases hg : guard k a with _ | _
    · simpa [whileLoop, hg] using ⟨k, hJ, hg⟩
    · rw [whileLoop_succ_of_guard hg]
      exact Spec.bind (hstep k a hJ hg) fun a' hJ' => ih (k + 1) a' hJ'

/-- **Termination rule.** If moreover a measure decreases at every guarded iteration, a
budget of at least that measure is never exhausted. -/
theorem whileLoop_spec_of_measure {J : ℕ → α → Prop} {E : ε → Prop} (μ : α → ℕ)
    (hstep : ∀ k a, J k a → guard k a = true →
      0 < μ a ∧ Spec (body a) (fun a' => J (k + 1) a' ∧ μ a' < μ a) E) :
    ∀ (budget k : ℕ) (a : α), J k a → μ a ≤ budget →
      Spec (whileLoop guard body overrun budget k a)
        (fun a' => ∃ k', J k' a' ∧ guard k' a' = false) E := by
  intro budget
  induction budget with
  | zero =>
    intro k a hJ hμ
    rcases hg : guard k a with _ | _
    · simpa [whileLoop, hg] using ⟨k, hJ, hg⟩
    · exact absurd (hstep k a hJ hg).1 (by omega)
  | succ budget ih =>
    intro k a hJ hμ
    rcases hg : guard k a with _ | _
    · simpa [whileLoop, hg] using ⟨k, hJ, hg⟩
    · rw [whileLoop_succ_of_guard hg]
      exact Spec.bind (hstep k a hJ hg).2 fun a' ⟨hJ', hlt⟩ => ih (k + 1) a' hJ' (by omega)

end Loop
