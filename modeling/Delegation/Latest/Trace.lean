import Delegation.Latest.System

/-!
# Runs with their history

`Reachable` forgets how a state was reached. `Run` remembers: its trace lists the steps that were
made, the first one first, each with the states around it, so that what has added up over a run can
be compared with what the contract stores at its end.
-/

namespace Delegation

/-- A step of a run, with the states around it. -/
structure Transition where
  before : World
  event : Event
  after : World

/-- `Run allowed w₀ trace w`: the steps of the trace, all of them allowed, lead from `w₀` to `w`. -/
inductive Run (allowed : World → Event → Prop) (w₀ : World) : List Transition → World → Prop
  | start : Run allowed w₀ [] w₀
  | step {trace : List Transition} {w w' : World} {e : Event} (h : Run allowed w₀ trace w)
      (he : allowed w e) (hs : Step w e w') : Run allowed w₀ (trace ++ [⟨w, e, w'⟩]) w'

variable {allowed allowed' : World → Event → Prop} {w₀ w : World} {trace : List Transition}

theorem Run.reachable_of_reachable (h : Run allowed w₀ trace w) (h₀ : Reachable allowed w₀) :
    Reachable allowed w := by
  induction h with
  | start => exact h₀
  | step _ he hs ih => exact .step ih he hs

theorem Run.reachable (h : Run allowed w₀ trace w) (h₀ : Initial w₀) : Reachable allowed w :=
  h.reachable_of_reachable (.initial h₀)

/-- Every reachable state has a history. -/
theorem Reachable.exists_run (h : Reachable allowed w) :
    ∃ w₀ trace, Initial w₀ ∧ Run allowed w₀ trace w := by
  induction h with
  | initial h => exact ⟨_, [], h, .start⟩
  | step _ he hs ih =>
    obtain ⟨w₀, trace, h₀, hrun⟩ := ih
    exact ⟨w₀, _, h₀, hrun.step he hs⟩

/-- The steps that a list of events makes, and where they lead. -/
def World.record (w : World) : List Event → Option (List Transition × World)
  | [] => some ([], w)
  | e :: events => do
      let w₁ ← w.after e
      let (trace, w') ← w₁.record events
      return (⟨w, e, w₁⟩ :: trace, w')

/-- A first step before a run. -/
theorem Run.cons {w₁ : World} {e : Event} (he : allowed w₀ e) (hs : Step w₀ e w₁)
    (h : Run allowed w₁ trace w) : Run allowed w₀ (⟨w₀, e, w₁⟩ :: trace) w := by
  induction h with
  | start => exact Run.start.step he hs
  | step _ he' hs' ih => exact ih.step he' hs'

theorem World.run_record {events : List Event} (h : w₀.record events = some (trace, w))
    (hall : ∀ t ∈ trace, allowed t.before t.event) : Run allowed w₀ trace w := by
  induction events generalizing w₀ trace with
  | nil =>
    simp only [record, Option.some.injEq, Prod.mk.injEq] at h
    obtain ⟨rfl, rfl⟩ := h
    exact .start
  | cons e events ih =>
    simp only [record, Option.bind_eq_bind, Option.bind_eq_some_iff, Option.pure_def,
      Option.some.injEq] at h
    obtain ⟨w₁, hafter, ⟨rest, w'⟩, hrest, heq⟩ := h
    simp only [Prod.mk.injEq] at heq
    obtain ⟨rfl, rfl⟩ := heq
    exact (ih hrest fun t ht => hall t (List.mem_cons_of_mem _ ht)).cons
      (hall _ List.mem_cons_self) (World.step_after hafter)

/-- The steps are those of the events. -/
theorem World.event_mem_of_record {events : List Event} (h : w₀.record events = some (trace, w)) :
    ∀ t ∈ trace, t.event ∈ events := by
  induction events generalizing w₀ trace with
  | nil =>
    simp only [record, Option.some.injEq, Prod.mk.injEq] at h
    obtain ⟨rfl, -⟩ := h
    simp
  | cons e events ih =>
    simp only [record, Option.bind_eq_bind, Option.bind_eq_some_iff, Option.pure_def,
      Option.some.injEq] at h
    obtain ⟨w₁, -, ⟨rest, w'⟩, hrest, heq⟩ := h
    simp only [Prod.mk.injEq] at heq
    obtain ⟨rfl, rfl⟩ := heq
    intro t ht
    rcases List.mem_cons.mp ht with rfl | ht
    · exact List.mem_cons_self
    · exact List.mem_cons_of_mem _ (ih hrest t ht)

end Delegation
