import Delegation.Fund.Transformations

/-!
# Withdrawable funds

What a user can withdraw: the funds that are withdrawable already, and the deferred payments that
are due. `eligible_deferred_payment` reads the second sum off the list of the user, and
`swap_eligible_deferred_to_withdraw` turns it into the first, as far as it gets. The two go by the
same condition on the items, so the sum of both stays the same at every interruption.
-/

namespace Delegation

open Outcome Loop DoublyLinked

/-! ### Views -/

namespace FundStore

/-- The loop body of `query_sum_funds_by_user_type`, on the id and the sum so far. -/
def sumFund (s : FundStore) (filter : FundDescription → Bool) (c : ℕ × ℕ) : Exec (ℕ × ℕ) :=
  let fundItem := s.fundById c.1
  .ok (fundItem.userListNext,
    if filter fundItem.fundDesc then c.2 + fundItem.balance else c.2)

/-- `query_sum_funds_by_user_type` -/
def querySumFundsByUserType (s : FundStore) (userId : ℕ) (fundType : FundType)
    (filter : FundDescription → Bool) (fuel : ℕ) : Exec ℕ := do
  let c ← whileLoop (fun _ c => decide (0 < c.1)) (s.sumFund filter) .outOfGas fuel 0
    ((s.fundListByUser (userId, fundType)).first, 0)
  return c.2

/-- The filter of `eligible_deferred_payment`. The sum of nonces is the wrapping one of `u64`. -/
def isEligible (currentBlNonce nBlocksBeforeClaim : UInt64) (fundDesc : FundDescription) : Bool :=
  match fundDesc with
  | .deferredPayment created => decide (created + nBlocksBeforeClaim ≤ currentBlNonce)
  | _ => false

/-- `eligible_deferred_payment` -/
def eligibleDeferredPayment (s : FundStore) (currentBlNonce : UInt64) (userId : ℕ)
    (nBlocksBeforeClaim : UInt64) (fuel : ℕ) : Exec ℕ :=
  s.querySumFundsByUserType userId .deferredPayment (isEligible currentBlNonce nBlocksBeforeClaim)
    fuel

variable {intact : FundType → Prop} {s s' : FundStore} {lay lay' : Layout} {u : ℕ} {t : FundType}
  {filter : FundDescription → Bool} {nonce blocks : UInt64}

/-! ### The sum over a list is a holding -/

/-- The loop adds up what is left of the list. -/
theorem whileLoop_sumFund (filter : FundDescription → Bool) (h : Linked intact s lay)
    (k : ℕ × FundType) :
    ∀ (R K : List ℕ) (sum i fuel : ℕ), lay.byUser k = K ++ R → R.length ≤ fuel →
      whileLoop (fun _ c => decide (0 < c.1)) (s.sumFund filter) .outOfGas fuel i
          (R.headD 0, sum) =
        .ok (0, sum + (R.map fun a => if filter (s.entry a).fundDesc then (s.entry a).balance
          else 0).sum) := by
  intro R
  induction R with
  | nil =>
    intro K sum i fuel _ _
    rw [whileLoop_of_not_guard (by simp)]
    rfl
  | cons a R ih =>
    intro K sum i fuel hlist hle
    obtain ⟨fuel, rfl⟩ := Nat.exists_eq_add_of_le' (Nat.one_le_of_lt hle)
    have hmem : a ∈ lay.byUser k := by simp [hlist]
    have hpos : 0 < a := Nat.pos_of_ne_zero (h.ne_zero ((h.mem_byUser k a).mp hmem).1)
    have hrep := h.users.rep k trivial
    rw [hlist] at hrep
    have hnext : (s.fundById a).userListNext = R.headD 0 := hrep.links.2
    rw [whileLoop_succ_of_guard (by simpa using hpos)]
    simp only [List.headD_cons, sumFund, ok_bind, hnext]
    rw [ih (K ++ [a]) _ _ _ (by simp [hlist]) (by simpa using hle)]
    change Except.ok (0, (if filter (s.entry a).fundDesc then sum + (s.entry a).balance
      else sum) + _) = _
    rw [List.map_cons, List.sum_cons]
    split_ifs
    · rw [Nat.add_assoc]
    · rw [Nat.zero_add]

/-- What a user holds in a list of one type. -/
theorem weigh_map_entry {ids : List ℕ} (hids : ∀ a ∈ ids, (s.entry a).fundDesc.fundType = t) :
    Entry.weigh (fun v d => v = u && (d.fundType = t && filter d)) (ids.map s.entry) =
      ((ids.filter fun a => (s.entry a).userId = u).map fun a =>
        if filter (s.entry a).fundDesc then (s.entry a).balance else 0).sum := by
  induction ids with
  | nil => rfl
  | cons a ids ih =>
    rw [List.map_cons, Entry.weigh_cons, ih fun b hb => hids b (List.mem_cons_of_mem a hb)]
    have ha := hids a List.mem_cons_self
    by_cases hu : (s.entry a).userId = u
    · rw [List.filter_cons_of_pos (by simpa using hu), List.map_cons, List.sum_cons]
      simp [Entry.weight, hu, ha]
    · rw [List.filter_cons_of_neg (by simpa using hu)]
      simp [Entry.weight, hu]

/-- **`query_sum_funds_by_user_type`** with enough gas. -/
theorem Sound.querySumFundsByUserType (h : Sound intact s) {fuel : ℕ} (hfuel : s.fundMaxId ≤ fuel) :
    s.querySumFundsByUserType u t filter fuel =
      .ok (s.holding fun v d => v = u && (d.fundType = t && filter d)) := by
  obtain ⟨lay, hl, hco⟩ := h
  have hfirst := (hl.users.rep (u, t) trivial).first
  have hrun := whileLoop_sumFund filter hl (u, t) (lay.byUser (u, t)) [] 0 0 fuel rfl
    ((hl.length_byUser_le (u, t)).trans hfuel)
  have hstart : (s.fundListByUser (u, t)).first = (lay.byUser (u, t)).headD 0 := hfirst
  have hsum : s.holding (fun v d => v = u && (d.fundType = t && filter d)) =
      ((lay.byUser (u, t)).map fun a => if filter (s.entry a).fundDesc then (s.entry a).balance
        else 0).sum := by
    rw [hl.holding_eq, Finset.sum_eq_single_of_mem t (Finset.mem_univ t), Layout.queue,
      weigh_map_entry fun a ha => hl.fundType_eq ha, hco u t]
    · rfl
    · intro t' _ hne
      refine List.sum_eq_zero fun n hn => ?_
      obtain ⟨e, he, rfl⟩ := List.mem_map.mp hn
      obtain ⟨a, ha, rfl⟩ := List.mem_map.mp he
      have ht : (s.entry a).fundDesc.fundType = t' := hl.fundType_eq ha
      simp [Entry.weight, ht, hne]
  unfold FundStore.querySumFundsByUserType
  rw [hstart, hrun, hsum, Nat.zero_add]
  rfl

/-! ### What a user can withdraw -/

/-- The deferred payments of the user that are due. -/
def due (nonce blocks : UInt64) (s : FundStore) (u : ℕ) : ℕ :=
  s.holding fun v d => v = u && isEligible nonce blocks d

theorem fundType_of_isEligible {d : FundDescription} (h : isEligible nonce blocks d = true) :
    d.fundType = .deferredPayment := by
  cases d <;> first | rfl | cases h

theorem Sound.eligibleDeferredPayment (h : Sound intact s) {fuel : ℕ}
    (hfuel : s.fundMaxId ≤ fuel) :
    s.eligibleDeferredPayment nonce u blocks fuel = .ok (s.due nonce blocks u) := by
  refine (h.querySumFundsByUserType hfuel).trans (congrArg (fun p => Except.ok (s.holding p)) ?_)
  funext v d
  by_cases hd : isEligible nonce blocks d = true
  · simp [hd, fundType_of_isEligible hd]
  · simp [hd]

theorem eligibleDeferredToWithdraw_eq_some {d d' : FundDescription} :
    eligibleDeferredToWithdraw nonce blocks d = some d' ↔
      isEligible nonce blocks d = true ∧ d' = .withdrawOnly := by
  cases d <;> simp [eligibleDeferredToWithdraw, isEligible, eq_comm]

/-! ### Withdrawing -/

end FundStore

end Delegation
