import Mathlib.Tactic

/-!
# First come, first served

A queue of tickets, each with an owner, the time since which it waits, and an amount. What is served
is served from the front, and may end within a ticket (`serve`). New tickets join at the end, and an
owner may give up tickets of its own, wherever they are; `Change` lists these three.

However the three are mixed, nobody jumps the queue. The queue stays in the order of the times
(`Queued.changes`); to everybody but the one who acts nothing happens except that the front is
served (`ticketsOf_changes`); and what somebody holds since a given time becomes less only when
nothing is left that has waited for longer (`le_since_of_changes`).
-/

namespace Fifo

open Relation

/-- What the tickets of a queue carry. The ticket `part a x` is `a` after `x` of it was served. -/
structure Tickets (α κ τ : Type*) where
  owner : α → κ
  since : α → τ
  amount : α → ℕ
  part : α → ℕ → α
  owner_part : ∀ a x, owner (part a x) = owner a
  since_part : ∀ a x, since (part a x) = since a
  amount_part : ∀ a x, amount (part a x) = amount a - x
  part_part : ∀ a x y, part (part a x) y = part a (x + y)

variable {α κ τ : Type*} (T : Tickets α κ τ)

/-- The queue after `x` was served from its front. -/
def serve : ℕ → List α → List α
  | _, [] => []
  | x, a :: q =>
      if x = 0 then a :: q
      else if x < T.amount a then T.part a x :: q
      else serve (x - T.amount a) q

@[simp]
theorem serve_nil (x : ℕ) : serve T x [] = [] := by
  rw [serve]

@[simp]
theorem serve_zero (q : List α) : serve T 0 q = q := by
  cases q <;> simp [serve]

variable {T} {x y : ℕ} {a : α} {q q' q'' : List α}

theorem serve_of_lt (hx : x ≠ 0) (h : x < T.amount a) :
    serve T x (a :: q) = T.part a x :: q := by
  rw [serve, if_neg hx, if_pos h]

theorem serve_of_le (hx : x ≠ 0) (h : T.amount a ≤ x) :
    serve T x (a :: q) = serve T (x - T.amount a) q := by
  rw [serve, if_neg hx, if_neg (not_lt.mpr h)]

/-- The three ways in which serving may meet a queue. -/
theorem serve_induct {P : ℕ → List α → List α → Prop} (nil : ∀ x, P x [] [])
    (zero : ∀ q, P 0 q q)
    (part : ∀ x a q, x ≠ 0 → x < T.amount a → P x (a :: q) (T.part a x :: q))
    (whole : ∀ x a q, x ≠ 0 → T.amount a ≤ x →
      P (x - T.amount a) q (serve T (x - T.amount a) q) →
      P x (a :: q) (serve T (x - T.amount a) q)) (x : ℕ) (q : List α) :
    P x q (serve T x q) := by
  induction q generalizing x with
  | nil => simpa using nil x
  | cons a q ih =>
    rcases Nat.eq_zero_or_pos x with rfl | hx
    · simpa using zero (a :: q)
    rcases lt_or_ge x (T.amount a) with hlt | hle
    · rw [serve_of_lt hx.ne' hlt]
      exact part x a q hx.ne' hlt
    · rw [serve_of_le hx.ne' hle]
      exact whole x a q hx.ne' hle (ih _)

/-- What is served in two portions could be served at once. -/
theorem serve_serve (x y : ℕ) (q : List α) : serve T y (serve T x q) = serve T (x + y) q := by
  rcases Nat.eq_zero_or_pos y with rfl | hy
  · simp
  refine serve_induct (P := fun x q r => serve T y r = serve T (x + y) q) ?_ ?_ ?_ ?_ x q
  · intro x
    simp
  · intro q
    rw [Nat.zero_add]
  · intro x a q hx hlt
    rcases lt_or_ge (x + y) (T.amount a) with hlt' | hle'
    · rw [serve_of_lt hy.ne' (by rw [T.amount_part]; omega), T.part_part,
        serve_of_lt (by omega) hlt']
    · rw [serve_of_le hy.ne' (by rw [T.amount_part]; omega), T.amount_part,
        serve_of_le (by omega) hle']
      congr 1
      omega
  · intro x a q hx hle ih
    rw [ih, serve_of_le (by omega) (by omega)]
    congr 1
    omega

/-- The tickets that are left have waited since the same times as before. -/
theorem map_since_serve (x : ℕ) (q : List α) : (serve T x q).map T.since <:+ q.map T.since := by
  refine serve_induct (P := fun _ q r => r.map T.since <:+ q.map T.since) ?_ ?_ ?_ ?_ x q
  · intro x
    exact List.suffix_rfl
  · intro q
    exact List.suffix_rfl
  · intro x a q _ _
    rw [List.map_cons, List.map_cons, T.since_part]
  · intro x a q _ _ ih
    exact ih.trans (List.suffix_cons _ _)

theorem amount_pos_of_serve (hpos : ∀ a ∈ q, 0 < T.amount a) (x : ℕ) :
    ∀ a ∈ serve T x q, 0 < T.amount a := by
  revert hpos
  refine serve_induct (P := fun _ q r => (∀ a ∈ q, 0 < T.amount a) → ∀ a ∈ r, 0 < T.amount a)
    ?_ ?_ ?_ ?_ x q
  · intro x h
    exact h
  · intro q h
    exact h
  · intro x a q _ hlt h b hb
    rcases List.mem_cons.mp hb with rfl | hb
    · rw [T.amount_part]
      omega
    · exact h b (List.mem_cons_of_mem a hb)
  · intro x a q _ _ ih h
    exact ih fun b hb => h b (List.mem_cons_of_mem a hb)

/-- The tickets of a group of owners. -/
def ticketsOf (T : Tickets α κ τ) (group : κ → Bool) (q : List α) : List α :=
  q.filter fun a => group (T.owner a)

section TicketsOf

variable {group : κ → Bool}

theorem ticketsOf_append :
    ticketsOf T group (q ++ q') = ticketsOf T group q ++ ticketsOf T group q' :=
  List.filter_append _ _

theorem ticketsOf_cons_of_mem (h : group (T.owner a) = true) :
    ticketsOf T group (a :: q) = a :: ticketsOf T group q :=
  List.filter_cons_of_pos h

theorem ticketsOf_cons_of_not_mem (h : group (T.owner a) = false) :
    ticketsOf T group (a :: q) = ticketsOf T group q :=
  List.filter_cons_of_neg (by simp [h])

/-- A queue that none of the group is in. -/
theorem ticketsOf_eq_nil (h : ∀ a ∈ q, group (T.owner a) = false) : ticketsOf T group q = [] := by
  rw [ticketsOf, List.filter_eq_nil_iff]
  intro a ha
  simp [h a ha]

end TicketsOf

/-- For any group of owners, serving the front of the queue serves the front of their part. -/
theorem ticketsOf_serve (hpos : ∀ a ∈ q, 0 < T.amount a) (group : κ → Bool) (x : ℕ) :
    ∃ y, ticketsOf T group (serve T x q) = serve T y (ticketsOf T group q) := by
  revert hpos
  refine serve_induct (P := fun _ q r => (∀ a ∈ q, 0 < T.amount a) →
    ∃ y, ticketsOf T group r = serve T y (ticketsOf T group q)) ?_ ?_ ?_ ?_ x q
  · intro x _
    exact ⟨0, by simp [ticketsOf]⟩
  · intro q _
    exact ⟨0, by simp⟩
  · intro x a q hx hlt _
    rcases hg : group (T.owner a) with _ | _
    · refine ⟨0, ?_⟩
      rw [ticketsOf_cons_of_not_mem (by rwa [T.owner_part]), ticketsOf_cons_of_not_mem hg,
        serve_zero]
    · refine ⟨x, ?_⟩
      rw [ticketsOf_cons_of_mem (by rwa [T.owner_part]), ticketsOf_cons_of_mem hg,
        serve_of_lt hx hlt]
  · intro x a q _ _ ih h
    obtain ⟨y, hy⟩ := ih fun b hb => h b (List.mem_cons_of_mem a hb)
    rw [hy]
    rcases hg : group (T.owner a) with _ | _
    · exact ⟨y, by rw [ticketsOf_cons_of_not_mem hg]⟩
    · -- the whole ticket is theirs
      have ha := h a List.mem_cons_self
      refine ⟨T.amount a + y, ?_⟩
      rw [ticketsOf_cons_of_mem hg, serve_of_le (by omega) (by omega), Nat.add_sub_cancel_left]

/-- What an owner holds since some time. -/
def held [DecidableEq κ] [DecidableEq τ] (T : Tickets α κ τ) (v : κ) (c : τ) (q : List α) : ℕ :=
  ((q.filter fun a => T.owner a = v ∧ T.since a = c).map T.amount).sum

section Held

variable [DecidableEq κ] [DecidableEq τ] {v : κ} {c : τ}

theorem held_cons : held T v c (a :: q) =
    (if T.owner a = v ∧ T.since a = c then T.amount a else 0) + held T v c q := by
  unfold held
  split_ifs with h <;> simp [h]

theorem held_append : held T v c (q ++ q') = held T v c q + held T v c q' := by
  simp [held]

/-- Who holds something is in the queue. -/
theorem exists_of_held_pos (h : 0 < held T v c q) : ∃ a ∈ q, T.since a = c := by
  by_contra hnone
  push Not at hnone
  have hempty : (q.filter fun a => T.owner a = v ∧ T.since a = c) = [] := by
    rw [List.filter_eq_nil_iff]
    intro a ha
    simp [hnone a ha]
  rw [held, hempty] at h
  exact absurd h (lt_irrefl 0)

/-- What an owner holds depends on its own tickets only. -/
theorem held_congr {group : κ → Bool} (hv : group v = true)
    (h : ticketsOf T group q' = ticketsOf T group q) : held T v c q' = held T v c q := by
  have hheld : ∀ l : List α, held T v c l = held T v c (ticketsOf T group l) := by
    intro l
    unfold held ticketsOf
    rw [List.filter_filter]
    congr 2
    refine List.filter_congr fun a _ => ?_
    by_cases ha : T.owner a = v
    · simp [ha, hv]
    · simp [ha]
  rw [hheld q', hheld q, h]

end Held

variable [LinearOrder τ] {now : τ}

/-- The queue at a time `now`: the tickets stand in the order of their times. -/
structure Queued (T : Tickets α κ τ) (now : τ) (q : List α) : Prop where
  pos : ∀ a ∈ q, 0 < T.amount a
  sorted : q.Pairwise fun a b => T.since a ≤ T.since b
  since_le : ∀ a ∈ q, T.since a ≤ now

theorem sorted_iff : (q.Pairwise fun a b => T.since a ≤ T.since b) ↔
    (q.map T.since).Pairwise (· ≤ ·) := by
  rw [List.pairwise_map]

/-- Some tickets less. -/
theorem Queued.of_sublist (h : Queued T now q) (hsub : (q'.map T.since).Sublist (q.map T.since))
    (hpos : ∀ a ∈ q', 0 < T.amount a) : Queued T now q' where
  pos := hpos
  sorted := sorted_iff.mpr ((sorted_iff.mp h.sorted).sublist hsub)
  since_le a ha := by
    obtain ⟨b, hb, heq⟩ := List.mem_map.mp (hsub.subset (List.mem_map_of_mem ha))
    rw [← heq]
    exact h.since_le b hb

theorem Queued.serve (h : Queued T now q) (x : ℕ) : Queued T now (serve T x q) :=
  h.of_sublist (map_since_serve x q).sublist (amount_pos_of_serve h.pos x)

/-- New tickets at the end. -/
theorem Queued.append (h : Queued T now q) (hnew : ∀ a ∈ q', T.since a = now)
    (hpos : ∀ a ∈ q', 0 < T.amount a) : Queued T now (q ++ q') where
  pos a ha := (List.mem_append.mp ha).elim (h.pos a) (hpos a)
  sorted := by
    rw [List.pairwise_append]
    refine ⟨h.sorted, ?_, ?_⟩
    · exact List.pairwise_of_forall_mem_list fun a ha b hb => by rw [hnew a ha, hnew b hb]
    · intro a ha b hb
      rw [hnew b hb]
      exact h.since_le a ha
  since_le a ha := (List.mem_append.mp ha).elim (h.since_le a) fun hb => (hnew a hb).le

theorem Queued.mono {later : τ} (h : Queued T now q) (hle : now ≤ later) : Queued T later q :=
  ⟨h.pos, h.sorted, fun a ha => (h.since_le a ha).trans hle⟩

section Overtaking

variable [DecidableEq κ] {v : κ} {c : τ}

/-- **No overtaking.** When something of what somebody holds since `c` was served, nothing is left
that has waited for longer. -/
theorem le_since_of_serve (hsorted : q.Pairwise fun a b => T.since a ≤ T.since b) (x : ℕ)
    (hlt : held T v c (serve T x q) < held T v c q) : ∀ a ∈ serve T x q, c ≤ T.since a := by
  revert hsorted hlt
  refine serve_induct (P := fun _ q r => (q.Pairwise fun a b => T.since a ≤ T.since b) →
    held T v c r < held T v c q → ∀ a ∈ r, c ≤ T.since a) ?_ ?_ ?_ ?_ x q
  · intro x _ hlt
    exact absurd hlt (lt_irrefl _)
  · intro q _ hlt
    exact absurd hlt (lt_irrefl _)
  · intro x a q _ _ hsorted hlt b hb
    rw [held_cons, held_cons, T.owner_part, T.since_part] at hlt
    have ha : T.since a = c := by
      by_contra hne
      simp [hne] at hlt
    rcases List.mem_cons.mp hb with rfl | hb
    · rw [T.since_part, ha]
    · rw [← ha]
      exact List.rel_of_pairwise_cons hsorted hb
  · intro x a q _ _ ih hsorted hlt
    rcases lt_or_ge (held T v c (serve T (x - T.amount a) q)) (held T v c q) with hlt' | hle
    · exact ih hsorted.of_cons hlt'
    · -- only the ticket at the front was theirs
      rw [held_cons] at hlt
      have ha : T.since a = c := by
        by_contra hne
        simp [hne] at hlt
        omega
      intro b hb
      have hmem := (map_since_serve (x - T.amount a) q).subset (List.mem_map_of_mem hb)
      obtain ⟨b', hb', heq⟩ := List.mem_map.mp hmem
      rw [← ha, ← heq]
      exact List.rel_of_pairwise_cons hsorted hb'

end Overtaking

/-! ### Whatever happens to a queue -/

/-- What may happen to a queue while `user` acts at the time `now`; only if `leaves` holds, the user
may give up tickets. -/
inductive Change (T : Tickets α κ τ) (user : κ) (now : τ) (leaves : Prop) (q : List α) :
    List α → Prop
  | joined {new : List α} (hpos : ∀ a ∈ new, 0 < T.amount a) (howner : ∀ a ∈ new, T.owner a = user)
      (hsince : ∀ a ∈ new, T.since a = now) : Change T user now leaves q (q ++ new)
  | served (x : ℕ) : Change T user now leaves q (serve T x q)
  | left {q' : List α} (hleaves : leaves) (hpos : ∀ a ∈ q', 0 < T.amount a)
      (hothers : ∀ group : κ → Bool, group user = false →
        ticketsOf T group q' = ticketsOf T group q)
      (hsince : (q'.map T.since).Sublist (q.map T.since)) : Change T user now leaves q q'

variable {user : κ} {leaves : Prop}

omit [LinearOrder τ] in
theorem Change.of_eq (h : q' = q) : Change T user now leaves q q' := by
  have hnone : Change T user now leaves q (serve T 0 q) := .served 0
  rw [serve_zero] at hnone
  rw [h]
  exact hnone

theorem Queued.change (h : Queued T now q) (hc : Change T user now leaves q q') :
    Queued T now q' := by
  cases hc with
  | joined hpos _ hsince => exact h.append hsince hpos
  | served x => exact h.serve x
  | left _ hpos _ hsince => exact h.of_sublist hsince hpos

/-- **The queue stays in order.** -/
theorem Queued.changes (h : Queued T now q) (hc : ReflTransGen (Change T user now leaves) q q') :
    Queued T now q' := by
  induction hc with
  | refl => exact h
  | tail _ hlast ih => exact ih.change hlast

/-- **Nothing but service happens to the others.** -/
theorem ticketsOf_changes (h : Queued T now q) (hc : ReflTransGen (Change T user now leaves) q q')
    {group : κ → Bool} (hgroup : group user = false) :
    ∃ x, ticketsOf T group q' = serve T x (ticketsOf T group q) := by
  induction hc with
  | refl => exact ⟨0, by simp⟩
  | @tail q₁ q₂ hchain hlast ih =>
    obtain ⟨x, hx⟩ := ih
    cases hlast with
    | @joined new _ howner _ =>
      have hnone : ticketsOf T group new = [] :=
        ticketsOf_eq_nil fun a ha => by rw [howner a ha, hgroup]
      exact ⟨x, by rw [ticketsOf_append, hnone, List.append_nil, hx]⟩
    | served y =>
      obtain ⟨z, hz⟩ := ticketsOf_serve (h.changes hchain).pos group y
      exact ⟨x + z, by rw [hz, hx, serve_serve]⟩
    | left _ _ hothers _ => exact ⟨x, by rw [hothers group hgroup, hx]⟩

variable [DecidableEq κ] {v : κ} {c : τ}

/-- **No overtaking, whatever happens.** What somebody holds since `c` becomes less only by its own
doing, or because it is served, and then nothing is left that has waited for longer. -/
theorem le_since_of_changes (h : Queued T now q)
    (hc : ReflTransGen (Change T user now leaves) q q') (hv : v ≠ user ∨ ¬ leaves)
    (hlt : held T v c q' < held T v c q) : ∀ a ∈ q', c ≤ T.since a := by
  have hnow : c ≤ now := by
    obtain ⟨a, ha, rfl⟩ := exists_of_held_pos (Nat.zero_lt_of_lt hlt)
    exact h.since_le a ha
  have hcases : held T v c q ≤ held T v c q' ∨ ∀ a ∈ q', c ≤ T.since a := by
    clear hlt
    induction hc with
    | refl => exact .inl le_rfl
    | @tail q₁ q₂ hchain hlast ih =>
      cases hlast with
      | @joined new _ _ hsince =>
        refine ih.imp (fun hle => ?_) fun hall a ha => ?_
        · rw [held_append]
          omega
        · rcases List.mem_append.mp ha with ha | ha
          · exact hall a ha
          · rw [hsince a ha]
            exact hnow
      | served x =>
        rcases ih with hle | hall
        · rcases lt_or_ge (held T v c (serve T x q₁)) (held T v c q₁) with hlt | hge
          · exact .inr (le_since_of_serve (h.changes hchain).sorted x hlt)
          · exact .inl (hle.trans hge)
        · right
          intro a ha
          have hmem := (map_since_serve x q₁).subset (List.mem_map_of_mem ha)
          obtain ⟨b, hb, heq⟩ := List.mem_map.mp hmem
          rw [← heq]
          exact hall b hb
      | left hleaves _ hothers hsince =>
        have hne : v ≠ user := hv.resolve_right (not_not.mpr hleaves)
        refine ih.imp (fun hle => ?_) fun hall a ha => ?_
        · have heq := hothers (fun w => decide (w = v)) (by simpa using hne.symm)
          rw [held_congr (by simp) heq]
          exact hle
        · obtain ⟨b, hb, heq⟩ := List.mem_map.mp (hsince.subset (List.mem_map_of_mem ha))
          rw [← heq]
          exact hall b hb
  exact hcases.resolve_left (by omega)

end Fifo
