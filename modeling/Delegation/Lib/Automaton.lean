import Mathlib.Tactic

/-!
# Partial automata and their histories

A partial automaton is a function `next : σ → ε → Option σ`: an event leads to another state, or
cannot happen. `run next st es` is where the events `es` lead from `st`, if they can happen in this
order. What a state says about the events that led there is the subject of the lemmas: a quantity
that events raise and lower can be counted in the history (`run_count`), and if a property holds now
and did not hold at the start, then the history has a last event that established it, and the events
since then are those that lead from states with the property to states with it (`run_last_entry`).

A system follows an automaton if each of its steps shows at most one event, and what is observed of
its state moves as the automaton does (`run_none`, `run_some`). Then the history of a run leads the
automaton to what is observed at its end (`run_filterMap_concat` is the step of that induction).
-/

universe u v w

namespace Automaton

variable {σ : Type u} {ε : Type v} {next : σ → ε → Option σ} {st st' : σ} {es : List ε}

/-- Where the events lead, if they can happen in this order. -/
def run (next : σ → ε → Option σ) (st : σ) (es : List ε) : Option σ := es.foldlM next st

@[simp]
theorem run_nil : run next st [] = some st := rfl

theorem run_append (es' : List ε) :
    run next st (es ++ es') = (run next st es).bind fun st' => run next st' es' := by
  rw [run, List.foldlM_append]
  rfl

@[simp]
theorem run_singleton {e : ε} : run next st [e] = next st e := by
  rw [run, List.foldlM_cons]
  exact bind_pure (next st e)

/-- The last event of a history, with the state that it happens in. -/
theorem run_concat_eq_some {e : ε} :
    run next st (es ++ [e]) = some st' ↔
      ∃ st₁, run next st es = some st₁ ∧ next st₁ e = some st' := by
  simp only [run_append, run_singleton, Option.bind_eq_some_iff]

/-- A step that shows no event. -/
theorem run_none (h : st' = st) : run next st (none : Option ε).toList = some st' := by
  rw [h, Option.toList_none, run_nil]

/-- A step that shows one event. -/
theorem run_some {e : ε} (h : next st e = some st') :
    run next st (some e).toList = some st' := by
  rw [Option.toList_some, run_singleton, h]

/-- One more step of a system that follows the automaton. -/
theorem run_filterMap_concat {τ : Type w} {event : τ → Option ε} {ts : List τ} {t : τ} {st₁ : σ}
    (h : run next st (ts.filterMap event) = some st₁)
    (ht : run next st₁ (event t).toList = some st') :
    run next st ((ts ++ [t]).filterMap event) = some st' := by
  have hlast : [t].filterMap event = (event t).toList := by
    cases hevent : event t <;> simp [hevent]
  rw [List.filterMap_append, run_append, h, hlast, Option.bind_some, ht]

/-- What every event keeps. -/
theorem run_invariant {P : σ → Prop} (hstep : ∀ st e st', P st → next st e = some st' → P st')
    (hst : P st) (h : run next st es = some st') : P st' := by
  induction es using List.reverseRecOn generalizing st' with
  | nil =>
    cases h
    exact hst
  | append_singleton es e ih =>
    obtain ⟨st₁, h₁, he⟩ := run_concat_eq_some.mp h
    exact hstep st₁ e st' (ih h₁) he

/-- **Counting.** `f` is raised by the events of `p` and lowered by those of `q`. -/
theorem run_count {f : σ → ℕ} {p q : ε → Bool}
    (hstep : ∀ st e st', next st e = some st' →
      f st' + (if q e then 1 else 0) = f st + (if p e then 1 else 0))
    (h : run next st es = some st') : f st' + es.countP q = f st + es.countP p := by
  induction es using List.reverseRecOn generalizing st' with
  | nil =>
    cases h
    rfl
  | append_singleton es e ih =>
    obtain ⟨st₁, h₁, he⟩ := run_concat_eq_some.mp h
    have hlast := hstep st₁ e st' he
    have hrest := ih h₁
    simp only [List.countP_append, List.countP_singleton]
    omega

/-- **The last entry** into the states of `P`. -/
theorem run_last_entry {P : σ → Prop} (hst : ¬ P st) (hst' : P st')
    (h : run next st es = some st') :
    ∃ before e after, es = before ++ e :: after ∧
      (∃ st₁ st₂, ¬ P st₁ ∧ P st₂ ∧ next st₁ e = some st₂) ∧
      ∀ e' ∈ after, ∃ st₁ st₂, P st₁ ∧ P st₂ ∧ next st₁ e' = some st₂ := by
  induction es using List.reverseRecOn generalizing st' with
  | nil =>
    cases h
    exact absurd hst' hst
  | append_singleton es e ih =>
    obtain ⟨st₁, h₁, he⟩ := run_concat_eq_some.mp h
    by_cases hP : P st₁
    · -- the last event stays within `P`, so the entry is an earlier one
      obtain ⟨before, e₀, after, rfl, hentry, hafter⟩ := ih hP h₁
      refine ⟨before, e₀, after ++ [e], by simp, hentry, fun e' he' => ?_⟩
      rcases List.mem_append.mp he' with he' | he'
      · exact hafter e' he'
      · obtain rfl := List.mem_singleton.mp he'
        exact ⟨st₁, st', hP, hst', he⟩
    · exact ⟨es, e, [], rfl, ⟨st₁, st', hP, hst', he⟩, by simp⟩

end Automaton
