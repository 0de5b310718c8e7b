import Mathlib.Tactic
import Delegation.Lib.DoublyLinked
import Delegation.Lib.Outcome

/-!
# Loops that walk along a list of links

A loop that stands at a place, visits it and goes on along a link visits, one after the other, the
places that the link leads through. `Leads next null l` says which these are, and
`whileLoop_walkBody` that the loop is the monadic fold of its visits over them, so what a loop
computes is a matter of lists from there on. The other lemmas compute the three folds that such
loops are written for: adding up, counting and collecting.

A doubly linked list leads along both of its links (`Seg.leads`, `Seg.leads_reverse`).
-/

universe u v w

namespace DoublyLinked

open Outcome Loop

/-! ### Where a link leads -/

section Leads

variable {α : Type u} {next prev : α → α} {null p q a : α} {l : List α}

/-- The link leads through `l` and then to `null`. -/
def Leads (next : α → α) (null : α) : List α → Prop
  | [] => True
  | a :: l => next a = l.headD null ∧ Leads next null l

theorem leads_append {l₁ l₂ : List α} : Leads next null (l₁ ++ l₂) ↔
    Leads next (l₂.headD null) l₁ ∧ Leads next null l₂ := by
  induction l₁ with
  | nil => simp [Leads]
  | cons a l ih => simp only [List.cons_append, Leads, headD_append, ih, and_assoc]

theorem Seg.leads (h : Seg next prev p l q) : Leads next q l := by
  induction l generalizing p with
  | nil => trivial
  | cons a l ih =>
    obtain ⟨-, hnext, hseg⟩ := h
    exact ⟨hnext, ih hseg⟩

theorem Seg.leads_reverse (h : Seg next prev p l q) : Leads prev p l.reverse := by
  induction l generalizing p with
  | nil => trivial
  | cons a l ih =>
    obtain ⟨hprev, -, hseg⟩ := h
    rw [List.reverse_cons, leads_append]
    exact ⟨ih hseg, hprev, trivial⟩

end Leads

/-! ### The loop -/

section Loop

variable {α : Type u} {β ε : Type v} {next : α → α} {null : α} {guard : α → Bool} {l : List α}

/-- One turn of a loop that walks along `next`, on the place and the result so far. -/
def walkBody (next : α → α) (visit : β → α → Except ε β) (c : α × β) : Except ε (α × β) :=
  (visit c.2 c.1).map fun b => (next c.1, b)

/-- **Walks are folds.** With a budget for all places, the loop makes every visit once, in order. -/
theorem whileLoop_walkBody (hl : Leads next null l) (hguard : ∀ a ∈ l, guard a = true)
    (hnull : guard null = false) (visit : β → α → Except ε β) (overrun : ε) {budget : ℕ}
    (hbudget : l.length ≤ budget) (k : ℕ) (b : β) :
    whileLoop (fun _ c => guard c.1) (walkBody next visit) overrun budget k (l.headD null, b) =
      (l.foldlM visit b).map fun b => (null, b) := by
  induction l generalizing budget k b with
  | nil =>
    rw [List.headD_nil, whileLoop_of_not_guard hnull]
    rfl
  | cons a l ih =>
    obtain ⟨hnext, hl⟩ := hl
    obtain ⟨budget, rfl⟩ := Nat.exists_eq_add_of_le' (Nat.one_le_of_lt hbudget)
    rw [List.headD_cons, whileLoop_succ_of_guard (hguard a List.mem_cons_self), List.foldlM_cons]
    simp only [walkBody]
    cases visit b a with
    | error e => rfl
    | ok b' =>
      simp only [Except.map, ok_bind, hnext]
      exact ih hl (fun a' ha' => hguard a' (List.mem_cons_of_mem a ha')) (by simpa using hbudget)
        (k + 1) b'

end Loop

/-! ### What loops compute -/

section Folds

variable {α : Type u} {β ε : Type v}

/-- Visits that cannot fail. -/
theorem foldlM_ok (f : β → α → β) (l : List α) (b : β) :
    l.foldlM (fun b a => (.ok (f b a) : Except ε β)) b = .ok (l.foldl f b) := by
  induction l generalizing b with
  | nil => rfl
  | cons a l ih => exact ih (f b a)

/-- Counting what is selected. -/
theorem foldl_count_ite (p : α → Bool) (l : List α) (n : ℕ) :
    l.foldl (fun n a => if p a then n + 1 else n) n = n + l.countP p := by
  induction l generalizing n with
  | nil => rfl
  | cons a l ih =>
    rw [List.foldl_cons, ih, List.countP_cons]
    split_ifs <;> omega

end Folds

end DoublyLinked
