import Delegation.Latest.Accounted

/-!
# Custody

What the contract holds covers the funds of the users that are waiting, deferred or withdrawable and
the rewards that have not been sent, in every state of every run without a cleanup of dust. The two
calls that pay out of the balance on the users' account or at their cost stay within that:
`stakeNodes` sends what is unprotected, and `unBond` pays what is owed.
-/

namespace Delegation

open Outcome FundStore

namespace Ledger

variable {s : Ledger}

/-- What is owed, the rewards aside, is in the balance. -/
theorem Accounted.owed_le (h : s.Accounted) : s.funds.owed ≤ s.balance := by
  have hcovered := h.covered
  have hsent := h.sum_le
  simp only [Covered] at hcovered
  omega

end Ledger

namespace Contract

variable {c c' : Contract} {env : Env} {issued : Option AsyncCall}

/-- `stakeNodes` sends the amount it was asked to, and checks it against what is unprotected. -/
theorem stakeNodes_sends {amountToStake : ℕ} {blsKeys : List BLSKey}
    (h : c.stakeNodes env amountToStake blsKeys = .ok (c', issued)) :
    ∃ call unprotected, issued = some call ∧ call.egld = amountToStake ∧
      c.ledger.totalUnprotected = .ok unprotected ∧ amountToStake ≤ unprotected := by
  obtain ⟨-, ⟨-, -, unprotected, hunp, hle⟩, _, _, _, -, h⟩ := stakeNodes_eq_ok h
  obtain ⟨-, -, rfl⟩ := sendAsync_eq_ok h
  exact ⟨_, unprotected, rfl, rfl, hunp, hle⟩

/-- **What `unBond` pays is in the balance.** -/
theorem unBond_funded (h : c.ledger.Accounted) (env : Env) :
    Spec (c.transaction env .unBond) (fun _ => True) (· ≠ .insufficientFunds) := by
  refine Spec.bind (P := fun _ => True) ((spec_require fun _ => nofun).imp fun _ _ => trivial)
    fun _ _ => ?_
  have hcredit : (c.credit env.payment).ledger.Accounted :=
    h.act (e := .receive env.payment) .received rfl
  refine spec_onLedgerFst ((Ledger.unBond_spec hcredit.consistent.sound env).mono
    (fun _ _ => trivial) fun p hp => hp.2 ?_)
  have howed := hcredit.owed_le
  simp only [FundStore.owed] at howed
  omega

end Contract

/-- **Custody.** In every reachable state, also between the transactions of an operation, the
balance and the rewards that were sent cover the rewards that have arrived and the funds that are
waiting, deferred or withdrawable. So `total_unprotected` does not underflow, what `stakeNodes`
sends is left over when all of that is covered, and `unBond` finds what it has to pay. -/
theorem custody_of_reachable {w : World} (h : Reachable (fun _ e => e.cleansDust = false) w) :
    w.contract.ledger.cumulatedRewards + w.contract.ledger.userStakeOfType 0 .waiting +
        w.contract.ledger.userStakeOfType 0 .deferredPayment +
        w.contract.ledger.userStakeOfType 0 .withdrawOnly ≤
      w.contract.ledger.balance + w.contract.ledger.sentRewards ∧
    (∃ unprotected, w.contract.ledger.totalUnprotected = .ok unprotected) ∧
    (∀ env amountToStake blsKeys c issued,
      w.contract.transaction env (.stakeNodes amountToStake blsKeys) = .ok (c, issued) →
      ∃ call, issued = some call ∧ call.egld = amountToStake ∧
        w.contract.ledger.cumulatedRewards + w.contract.ledger.userStakeOfType 0 .waiting +
            w.contract.ledger.userStakeOfType 0 .deferredPayment +
            w.contract.ledger.userStakeOfType 0 .withdrawOnly + call.egld ≤
          w.contract.ledger.balance + w.contract.ledger.sentRewards) ∧
    ∀ env p, w.contract.transaction env .unBond = .error p → p ≠ .insufficientFunds := by
  have hacc := h.accounted
  have hcovered := hacc.covered
  refine ⟨?_, hcovered.totalUnprotected, fun env amountToStake blsKeys c issued hcall => ?_,
    fun env p hp => (Contract.unBond_funded hacc env).of_error hp⟩
  · simp only [Ledger.Covered, FundStore.owed] at hcovered
    simp only [Ledger.userStakeOfType_zero]
    omega
  · obtain ⟨_, hpay, hcall⟩ := bind_eq_ok.mp hcall
    have hzero : env.payment = 0 := (require_eq_ok.mp hpay).resolve_left (by simp [Call.payable])
    have hcall' : w.contract.stakeNodes env amountToStake blsKeys = .ok (c, issued) := by
      rw [hzero] at hcall
      exact hcall
    obtain ⟨call, unprotected, hissued, hegld, hunp, hle⟩ := Contract.stakeNodes_sends hcall'
    refine ⟨call, hissued, hegld, ?_⟩
    rw [Ledger.totalUnprotected_eq_ok, FundStore.owed] at hunp
    simp only [Ledger.userStakeOfType_zero]
    omega

/-- Most of the active funds have been sent to the auction contract, a cut of the cap is interrupted
after the first fund has been deferred, and the rest still covers what is owed. -/
theorem custody_of_reachable_cut :
    ∃ w : World, w.contract.ledger.globalOpCheckpoint.swapping = true ∧
      w.contract.ledger.userStakeOfType 0 .deferredPayment = 10 ∧
      w.contract.ledger.balance + w.contract.ledger.sentRewards = 1040 ∧
      w.contract.ledger.cumulatedRewards + w.contract.ledger.userStakeOfType 0 .waiting +
          w.contract.ledger.userStakeOfType 0 .deferredPayment +
          w.contract.ledger.userStakeOfType 0 .withdrawOnly ≤
        w.contract.ledger.balance + w.contract.ledger.sentRewards := by
  let events : List Event :=
    [.transaction { Env.plain 1 0 9 with payment := 90 } .stake,
      .transaction { Env.plain 7 0 9 with payment := 10 } .stake, .reward 1000,
      .transaction (.plain 7 1 9) .claimRewards, .transaction (.plain 1 0 9) (.addNodes [(5, 50)]),
      .transaction (.plain 1 1 9) (.stakeNodes 60 [5]), .answer 0 1 (.ok []),
      .transaction { Env.plain 1 2 9 with gasLow := fun i k => decide (i = 3 ∧ k = 1) }
        (.modifyTotalDelegationCap 70)]
  have hrun : ((World.deploy 1 0 2 1000 0 9 1 100).bind (·.run events)).map (fun w =>
      (w.contract.ledger.globalOpCheckpoint.swapping,
        [w.contract.ledger.userStakeOfType 0 .deferredPayment,
          w.contract.ledger.balance + w.contract.ledger.sentRewards])) =
      some (true, [10, 1040]) := by
    decide +kernel
  obtain ⟨w, hw, hobs⟩ := Option.map_eq_some_iff.mp hrun
  simp only [Prod.mk.injEq, List.cons.injEq, and_true] at hobs
  obtain ⟨hsw, hdeferred, hheld⟩ := hobs
  have hreach : Reachable (fun _ e => e.cleansDust = false) w := by
    refine .run (fun _ h => World.initial_deploy h) (fun e he _ => ?_) hw
    simp only [events, List.mem_cons, List.not_mem_nil, or_false] at he
    rcases he with rfl | rfl | rfl | rfl | rfl | rfl | rfl | rfl <;> rfl
  exact ⟨w, hsw, hdeferred, hheld, (custody_of_reachable hreach).1⟩

end Delegation
