import Delegation.Lib.Outcome

/-!
# The checks of a computation

A computation that may abort often begins with a list of checks, and then does work that should not
fail. `Outcome.Decides R checks x` says that it is so: `x` returns only if all checks pass, and an
error is that of the first check that fails, or one of `R`, the errors of the work.

Such a statement is exact in both directions, which a specification of the errors alone is not: a
check that is not listed, or is listed and not made, makes it false. The rules follow the shape of a
`do` block, as those of `Outcome.Spec` do; in a sequence the lists are appended.
-/

namespace Outcome

universe u v

variable {ε : Type u} {α β : Type v}

/-- The error of the first check that fails. -/
def refusal : List (Bool × ε) → Option ε
  | [] => none
  | (passed, e) :: checks => if passed then refusal checks else some e

variable {x : Except ε α} {f : α → Except ε β} {P : α → Prop} {R R' : ε → Prop}
  {checks checks' : List (Bool × ε)} {e : ε}

@[simp]
theorem refusal_nil : refusal ([] : List (Bool × ε)) = none := rfl

@[simp]
theorem refusal_cons (passed : Bool) (e : ε) (checks : List (Bool × ε)) :
    refusal ((passed, e) :: checks) = if passed then refusal checks else some e := rfl

/-- A check that fails hides the later ones. -/
theorem refusal_append (checks checks' : List (Bool × ε)) :
    refusal (checks ++ checks') = (refusal checks).or (refusal checks') := by
  induction checks with
  | nil => rfl
  | cons check checks ih =>
    obtain ⟨passed, e⟩ := check
    cases passed with
    | true => exact ih
    | false => rfl

/-- The computation returns only if all checks pass, and an error is that of the first check that
fails, or one of `R`. -/
def Decides (R : ε → Prop) (checks : List (Bool × ε)) (x : Except ε α) : Prop :=
  Spec x (fun _ => refusal checks = none) fun e => refusal checks = some e ∨ R e

/-- Work whose errors are those of `R` makes no checks. -/
theorem Spec.decides (h : Spec x P R) : Decides R [] x :=
  h.mono (fun _ _ => rfl) fun _ he => .inr he

/-- **Sequencing**: what comes later makes the later checks. -/
theorem Decides.bind (hx : Decides R checks x)
    (hf : ∀ a, x = .ok a → Decides R checks' (f a)) :
    Decides R (checks ++ checks') (x >>= f) := by
  cases x with
  | ok a =>
    refine (hf a rfl).mono (fun _ h => ?_) fun _ h => ?_
    · rw [refusal_append, spec_ok.mp hx]
      exact h
    · rw [refusal_append, spec_ok.mp hx]
      exact h
  | error e =>
    refine (spec_error.mp hx).imp_left fun h => ?_
    rw [refusal_append, h]
    rfl

/-- Work after the checks. -/
theorem Decides.bind_work {Q : β → Prop} (hx : Decides R checks x)
    (hf : ∀ a, x = .ok a → Spec (f a) Q R) : Decides R checks (x >>= f) := by
  rw [← List.append_nil checks]
  exact hx.bind fun a ha => (hf a ha).decides

/-- The checks of a loop. Those of an element may look at the elements before it. -/
def loopChecks {γ : Type v} (item : List γ → γ → List (Bool × ε)) :
    List γ → List γ → List (Bool × ε)
  | _, [] => []
  | done, c :: rest => item done c ++ loopChecks item (done ++ [c]) rest

/-- **Folding**: each step makes the checks of its element, under an invariant of the elements
already folded and of the value reached. -/
theorem Decides.foldlM {γ : Type v} {g : β → γ → Except ε β} {item : List γ → γ → List (Bool × ε)}
    {J : List γ → β → Prop} {cs : List γ} {b : β} (hb : J [] b)
    (hstep : ∀ done c b, c ∈ cs → J done b → Decides R (item done c) (g b c) ∧
      Spec (g b c) (J (done ++ [c])) fun _ => True) :
    Decides R (loopChecks item [] cs) (cs.foldlM g b) := by
  suffices h : ∀ (rest done : List γ) (b : β), done ++ rest = cs → J done b →
      Decides R (loopChecks item done rest) (rest.foldlM g b) from h cs [] b rfl hb
  intro rest
  induction rest with
  | nil => exact fun _ _ _ _ => rfl
  | cons c rest ih =>
    intro done b hcs hb
    obtain ⟨hdecides, hnext⟩ := hstep done c b (by simp [← hcs]) hb
    rw [List.foldlM_cons]
    exact hdecides.bind fun b' hb' => ih (done ++ [c]) b' (by simpa using hcs) (hnext.of_ok hb')

/-- Only the refusal matters. -/
theorem Decides.congr (h : Decides R checks x) (heq : refusal checks = refusal checks') :
    Decides R checks' x := by
  unfold Decides
  rw [← heq]
  exact h

/-- What else is known of the errors. -/
theorem Decides.and (h : Decides R checks x) (hx : Spec x P R') :
    Decides (fun e => R e ∧ R' e) checks x :=
  (Spec.and h hx).mono (fun _ h => h.1) fun _ he => he.1.imp_right fun hR => ⟨hR, he.2⟩

theorem Decides.mono (h : Decides R checks x) (hR : ∀ e, R e → R' e) : Decides R' checks x :=
  Spec.mono h (fun _ h => h) fun e he => he.imp_right (hR e)

/-- **Acceptance.** When all checks pass, nothing but the work can fail. -/
theorem Decides.accepts (h : Decides R checks x) (hall : refusal checks = none) :
    Spec x (fun _ => True) R :=
  Spec.mono h (fun _ _ => trivial) fun e he => he.resolve_left (by rw [hall]; nofun)

/-- **Refusal.** When a check fails, the computation ends with its error, or in the work before
it. -/
theorem Decides.refuses (h : Decides R checks x) (hno : refusal checks = some e) :
    Spec x (fun _ => False) fun e' => e' = e ∨ R e' := by
  refine Spec.mono h (fun _ hnone => ?_) fun e' he => he.imp_left fun hsome => ?_
  · rw [hno] at hnone
    cases hnone
  · rw [hno, Option.some.injEq] at hsome
    exact hsome.symm

end Outcome
