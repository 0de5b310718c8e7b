import Delegation.Fund.Holdings

/-!
# Destroying the items of a user

The specification of `destroy_all_for_user`, the one function by which funds leave the store: what
it removes from the totals and holdings is what it returns.
-/

namespace Delegation

open Outcome Loop DoublyLinked FundStore

variable {intact : FundType → Prop} {s : FundStore} {lay : Layout}

/-- What `destroy_all_for_user` has done when its total is `x`. -/
structure FundStore.Destroyed (s s' : FundStore) (u : ℕ) (t : FundType) (x : ℕ) : Prop where
  typeTotal : ∀ t', s'.typeTotal t' + (if t' = t then x else 0) = s.typeTotal t'
  userTotal : ∀ v t', s'.userTotal v t' + (if (v, t') = (u, t) then x else 0) = s.userTotal v t'
  holding : ∀ p : ℕ → FundDescription → Bool, ∀ b, (∀ d, d.fundType = t → p u d = b) →
    s'.holding p + (if b then x else 0) = s.holding p
  evolves : Evolves s s'
  untouched : Untouched (· = (u, t)) s s'

/-- What holds between the iterations of `destroy_all_for_user`: the next id is the first of the
list that is left. -/
def FundStore.Destroying (intact : FundType → Prop) (s : FundStore) (u : ℕ) (t : FundType)
    (c : FundStore × ℕ × ℕ) : Prop :=
  ∃ lay, Linked intact c.1 lay ∧ Coherent c.1 lay ∧ Destroyed s c.1 u t c.2.2 ∧
    c.2.1 = (lay.byUser (u, t)).headD 0

theorem FundStore.Destroying.destroyOne {u : ℕ} {t : FundType} {c : FundStore × ℕ × ℕ}
    (h : Destroying intact s u t c) (hid : 0 < c.2.1) :
    Spec (FundStore.destroyOne c) (Destroying intact s u t) (· = .outOfGas) := by
  obtain ⟨s₀, id, x⟩ := c
  obtain ⟨lay₀, hl, hco, hd, hfirst⟩ := h
  simp only at hid hl hco hd hfirst
  obtain ⟨R, hlist⟩ : ∃ R, lay₀.byUser (u, t) = id :: R := by
    cases hl' : lay₀.byUser (u, t) with
    | nil =>
      rw [hl', List.headD_nil] at hfirst
      omega
    | cons a R =>
      rw [hl', List.headD_cons] at hfirst
      exact ⟨R, by rw [hfirst]⟩
  obtain ⟨hlive, hkey⟩ := (hl.mem_byUser (u, t) id).mp (hlist ▸ List.mem_cons_self)
  have ht : (s₀.fundById id).fundType = t := congrArg Prod.snd hkey
  obtain ⟨s₁, hdel, he⟩ := hl.deleteFund hlive
  have hlinked : Linked intact (s₁.setFund id (s₀.fundById id).emptied)
      (s₀.afterTake lay₀ id (s₀.fundById id).balance) := he.linked
  unfold FundStore.destroyOne
  simp only [hdel, ok_bind, pure_eq_ok, spec_ok]
  refine ⟨_, hlinked, he.coherent hl hco,
    ⟨fun t' => ?_, fun v t' => ?_, fun p b hp => ?_, ?_, ?_⟩, ?_⟩
  · rw [← hd.typeTotal t', ← he.typeTotal t', ht]
    change s₁.typeTotal t' + (if t' = t then x + (s₀.fundById id).balance else 0) = _
    split_ifs <;> omega
  · rw [← hd.userTotal v t', ← he.userTotal v t', hkey]
    change s₁.userTotal v t' + (if (v, t') = (u, t) then x + (s₀.fundById id).balance else 0) = _
    split_ifs <;> omega
  · have hitem : p (s₀.entry id).userId (s₀.entry id).fundDesc = b := by
      rw [show (s₀.entry id).userId = u from congrArg Prod.fst hkey]
      exact hp _ ht
    have hx := he.holding hl hlive p
    rw [hitem] at hx
    rw [← hd.holding p b hp, ← hx]
    change (s₁.setFund id (s₀.fundById id).emptied).holding p +
      (if b then x + (s₀.fundById id).balance else 0) =
        (s₁.setFund id (s₀.fundById id).emptied).holding p +
          (if b then (s₀.fundById id).balance else 0) + if b then x else 0
    split_ifs <;> omega
  · refine hd.evolves.trans (hl.evolves hlinked he.fundMaxId.symm.le fun k a _ ha => ?_)
    rw [hl.afterTake_byUser, if_pos rfl] at ha
    exact List.mem_of_mem_erase ha
  · have hitem := he.untouched hl
    rw [hkey] at hitem
    exact hd.untouched.trans hitem
  · rw [hl.afterTake_byUser, if_pos rfl, hlist, List.erase_cons_head]
    have hrep := hl.users.rep (u, t) trivial
    rw [hlist] at hrep
    have hlinks : Links.Rep _ ([] ++ id :: R) := hrep
    exact hlinks.links.2

/-- **`destroy_all_for_user`** keeps the invariant, removes what it returns and, uninterrupted,
leaves nothing. -/
theorem FundStore.Linked.destroyAllForUser (h : Linked intact s lay) (hco : Coherent s lay)
    (u : ℕ) (t : FundType) (interrupt : ℕ → Bool) (fuel : ℕ) :
    Spec (s.destroyAllForUser u t interrupt fuel)
      (fun r => ∃ lay', Linked intact r.1 lay' ∧ Coherent r.1 lay' ∧ Destroyed s r.1 u t r.2 ∧
        ((∀ k, interrupt k = false) → r.1.userTotal u t = 0))
      (· = .outOfGas) := by
  unfold FundStore.destroyAllForUser
  refine Spec.bind (P := fun c => Destroying intact s u t c ∧
    ∃ k, (decide (0 < c.2.1) && !interrupt k) = false) ?_ ?_
  · refine Spec.imp (whileLoop_spec (J := fun _ => Destroying intact s u t)
      (E := fun e => e = Panic.outOfGas) rfl (fun k c hc hg => ?_) fuel 0 _ ?_)
      fun c ⟨k, hc, hg⟩ => ⟨hc, k, hg⟩
    · rw [Bool.and_eq_true, decide_eq_true_eq] at hg
      exact hc.destroyOne hg.1
    · exact ⟨lay, h, hco, ⟨fun _ => by simp, fun _ _ => by simp, fun _ _ _ => by simp, .refl s,
        .refl _ s⟩,
        (h.users.rep (u, t) trivial).first⟩
  · rintro ⟨s', id, x⟩ ⟨⟨lay', hl, hco', hd, hid⟩, k, hg⟩
    refine ⟨lay', hl, hco', hd, fun hi => hl.byUser_eq_nil_iff.mp ?_⟩
    simp only [hi, Bool.not_false, Bool.and_true, decide_eq_false_iff_not, not_lt,
      Nat.le_zero] at hg
    change id = (lay'.byUser (u, t)).headD 0 at hid
    cases hlist : lay'.byUser (u, t) with
    | nil => rfl
    | cons a l =>
      obtain rfl : a = 0 := by rw [← hg, hid, hlist]; rfl
      exact absurd (hlist ▸ List.mem_cons_self) (hl.users.null (u, t))

end Delegation
