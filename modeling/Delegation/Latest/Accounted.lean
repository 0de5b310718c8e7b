import Delegation.Latest.Solvency

/-!
# What every run keeps, and what never panics

`Accounted` collects what the contract keeps in every run without a cleanup of dust: one of the
lists of waiting and of unstaked funds is empty, the funds stay under the cap, the users' funds are
covered by the balance, and their rewards by what has arrived.

Together these leave no room for the arithmetic of the contract to go wrong. The subtractions of
`load_updated_user_rewards` and of `total_unprotected` have their bounds, and the remainder that
`compute_all_rewards` gives to the owner is not negative, since the running sum is a sum of what is
stored. So no call of a delegator and no operation ends with a panic of `BigUint`
(`Reachable.not_arith`).
-/

namespace Delegation

open Outcome FundStore StateTransition Relation

theorem GlobalOpCheckpoint.computing_of_swapping {op : GlobalOpCheckpoint}
    (h : op.swapping = true) : op.computing = Option.none := by
  cases hc : op.computing with
  | none => rfl
  | some data =>
    rw [swapping_of_computing hc] at h
    cases h

namespace Ledger

variable {s s' : Ledger} {env : Env} {e : Event} {nonce : UInt64} {u : ℕ}

/-- The rules of the lists, of the cap, of the users' funds and of the rewards. -/
structure Accounted (s : Ledger) : Prop where
  consistent : s.Consistent
  oneSided : s.OneSided
  capTracked : s.CapTracked
  covered : s.Covered
  rewardsCovered : s.RewardsCovered

theorem Accounted.act (h : s.Accounted) (ha : s.Act e s') (he : e.cleansDust = false) :
    s'.Accounted where
  consistent := h.consistent.act ha
  oneSided := h.oneSided.act h.consistent.sound ha
  capTracked := h.capTracked.act h.consistent h.oneSided ha he
  covered := h.covered.act h.consistent ha he
  rewardsCovered := h.rewardsCovered.act h.consistent h.capTracked
    (h.capTracked.act h.consistent h.oneSided ha he) ha he

theorem Accounted.ticked (h : s.Accounted) (ht : Ticked nonce s s') : s'.Accounted where
  consistent := h.consistent.ticked ht
  oneSided := h.oneSided.ticked ht
  capTracked := h.capTracked.ticked h.consistent.books ht
  covered := h.covered.ticked h.consistent.books ht
  rewardsCovered := h.rewardsCovered.ticked h.consistent h.capTracked
    (h.capTracked.ticked h.consistent.books ht) ht

theorem Accounted.ticks (h : s.Accounted) (ht : ReflTransGen (Ticked nonce) s s') :
    s'.Accounted := by
  induction ht with
  | refl => exact h
  | tail _ hlast ih => exact ih.ticked hlast

end Ledger

theorem rewardsCovered_of_initial {w : World} (h : Initial w) :
    w.contract.ledger.RewardsCovered := by
  cases h with
  | init h =>
    obtain ⟨_, -, h⟩ := bind_eq_ok.mp h
    obtain ⟨_, -, h⟩ := bind_eq_ok.mp h
    cases h
    refine Ledger.rewardsCovered_of_solvent ?_ rfl
    simp [Ledger.Solvent, Accrual.Solvent, Accrual.value]

/-- **Every run without a cleanup of dust is accounted for.** -/
theorem Reachable.accounted {w : World} (h : Reachable (fun _ e => e.cleansDust = false) w) :
    w.contract.ledger.Accounted :=
  (h.ledger_invariant (J := Ledger.Accounted)
    (fun _ hw => ⟨hw.consistent, Ledger.oneSided_of_initial hw, Ledger.capTracked_of_initial hw,
      Ledger.covered_of_initial hw, rewardsCovered_of_initial hw⟩)
    (fun _ _ _ _ hJ he ha => hJ.act ha he) fun _ _ _ _ hJ ht => hJ.ticked ht).2

namespace Ledger

variable {s s' : Ledger} {env : Env} {e : Event} {nonce : UInt64} {u : ℕ}

/-! ### Operations do not get stuck in the computation of rewards -/

/-- Unless funds are swapped, the stored rewards and what was sent have arrived. -/
theorem Accounted.sum_le (h : s.Accounted) :
    ∑ u ∈ Finset.Icc 1 s.numUsers, s.userRewUnclaimed u + s.sentRewards ≤ s.cumulatedRewards := by
  cases hsw : s.globalOpCheckpoint.swapping with
  | false => exact (h.rewardsCovered.solvent hsw).sum_le h.consistent.books
  | true =>
    obtain ⟨settled, hset⟩ := h.rewardsCovered.settled hsw
    exact hset.sum_le.trans hset.le

theorem Accounted.steady (h : s.Accounted) (hno : s.globalOpCheckpoint.swapping = false) :
    s.Steady := h.capTracked.steady h.consistent hno

/-- **The computation of rewards goes on.** -/
theorem Accounted.computing_eq_none (h : s.Accounted) (hstuck : s.Stuck) :
    s.globalOpCheckpoint.computing = none := by
  cases hstuck with
  | rewards hop _ _ hload =>
    have hs := h.steady (GlobalOpCheckpoint.swapping_of_computing hop)
    rw [(hs.computable _).loadUpdatedUserRewards_eq] at hload
    cases hload
  | remainder hop _ hle hsum =>
    -- the running sum is the sum of what is stored
    have hcomputed := h.consistent.books.computing _ hop
    have hstored := hcomputed.sumUnclaimed
    rw [le_antisymm hcomputed.lastId_le hle] at hstored
    have := h.sum_le
    omega
  | waiting hop hstep | unStaked hop hstep | active hop hstep =>
    exact GlobalOpCheckpoint.computing_of_swapping
      (by simp [hop, GlobalOpCheckpoint.swapping, hstep])

theorem Accounted.not_getsStuck (h : s.Accounted) : ¬ GetsStuck nonce s := by
  rintro ⟨t, ht, hcomputing, hend⟩
  obtain ⟨hsound, hticks⟩ := ticks_of_reaches h.consistent.sound ht
  rcases tick_eq_none hsound hend with hop | hstuck
  · rw [hop] at hcomputing
    exact hcomputing rfl
  · exact hcomputing ((h.ticks hticks).computing_eq_none hstuck)

theorem Accounted.not_arith_of_callFails {p : Panic} (h : s.Accounted) (hf : CallFails env s p) :
    ¬ p.Arith := by
  rcases hf with ⟨_, rfl, -⟩ | ⟨-, hstuck⟩
  · exact Panic.not_arith_scPanic _
  · exact absurd hstuck h.not_getsStuck

/-! ### Calls that never panic in `BigUint` -/

theorem Covered.not_arith {p : Panic} (h : s.Covered) (hp : s.totalUnprotected = .error p) :
    ¬ p.Arith := by
  obtain ⟨unprotected, hok⟩ := h.totalUnprotected
  rw [hok] at hp
  cases hp

/-- Delegators are refused while an operation is in progress. -/
theorem stake_of_busy (hop : s.globalOpCheckpoint ≠ .none) (env : Env) :
    Spec (s.stake env) (fun _ => False) fun p => ∃ msg, p = .scPanic msg := by
  refine Spec.bind (spec_require fun _ => ⟨_, rfl⟩) fun _ _ => ?_
  refine Spec.bind (spec_require fun _ => ⟨_, rfl⟩) fun _ _ => ?_
  exact Spec.bind (spec_require fun _ => ⟨_, rfl⟩) fun _ hidle =>
    absurd (globalOpCheckpoint_eq_none hidle) hop

theorem unStake_of_busy (hop : s.globalOpCheckpoint ≠ .none) (env : Env) (amount : ℕ) :
    Spec (s.unStake env amount) (fun _ => False) fun p => ∃ msg, p = .scPanic msg := by
  refine Spec.bind (spec_require fun _ => ⟨_, rfl⟩) fun _ _ => ?_
  exact Spec.bind (spec_require fun _ => ⟨_, rfl⟩) fun _ hidle =>
    absurd (globalOpCheckpoint_eq_none hidle) hop

theorem claimRewards_of_busy (hop : s.globalOpCheckpoint ≠ .none) (env : Env) :
    Spec (s.claimRewards env) (fun _ => False) fun p => ∃ msg, p = .scPanic msg := by
  refine Spec.bind (spec_require fun _ => ⟨_, rfl⟩) fun _ _ => ?_
  refine Spec.bind (spec_require fun _ => ⟨_, rfl⟩) fun _ _ => ?_
  refine Spec.bind (spec_require fun _ => ⟨_, rfl⟩) fun _ _ => ?_
  exact Spec.bind (spec_require fun _ => ⟨_, rfl⟩) fun _ hidle =>
    absurd (globalOpCheckpoint_eq_none hidle) hop

/-- A call that is refused during an operation is safe if it is safe on a steady ledger. -/
theorem Accounted.not_arith_of_busy {α : Type} {x : Exec α} (h : s.Accounted)
    (hbusy : s.globalOpCheckpoint ≠ .none →
      Spec x (fun _ => False) fun p => ∃ msg, p = .scPanic msg)
    (hidle : s.Steady → Spec x (fun _ => True) fun p => ¬ p.Arith) :
    Spec x (fun _ => True) fun p => ¬ p.Arith := by
  by_cases hop : s.globalOpCheckpoint = .none
  · exact hidle (h.steady (by rw [hop]; rfl))
  · refine (hbusy hop).mono (fun _ _ => trivial) fun p hp => ?_
    obtain ⟨msg, rfl⟩ := hp
    exact Panic.not_arith_scPanic msg

theorem Accounted.startOperation_not_arith (h : s.Accounted) (env : Env) (op : Operation) :
    Spec (s.startOperation env op) (fun _ => True) fun p => ¬ p.Arith := by
  refine (startOperation_fails h.consistent.sound env op).mono (fun _ h => h) fun p hp => ?_
  cases hp with
  | check msg => exact Panic.not_arith_scPanic msg
  | unprotected hunp => exact h.covered.not_arith hunp
  | opened hop howner hopened hfails =>
    have hact : s.Act (.transaction { env with payment := 0 } op.call) _ :=
      .operated rfl hop howner hopened
    exact (h.act hact (by cases op <;> rfl)).not_arith_of_callFails hfails

theorem Accounted.continueGlobalOperation_not_arith (h : s.Accounted) (env : Env) :
    Spec (s.continueGlobalOperationEndpoint env) (fun _ => True) fun p => ¬ p.Arith := by
  refine (continueGlobalOperationEndpoint_spec h.consistent.sound env).mono
    (fun _ _ => trivial) fun p hp => ?_
  rcases hp with ⟨msg, rfl⟩ | hfails
  · exact Panic.not_arith_scPanic msg
  · exact h.not_arith_of_callFails hfails

end Ledger

namespace Contract

variable {c : Contract} {env : Env} {call : Call}

theorem spec_onLedger {r : Exec Ledger} {E : Panic → Prop} (h : Spec r (fun _ => True) E) :
    Spec (c.onLedger r) (fun _ => True) E :=
  Spec.bind h fun _ _ => trivial

theorem spec_onLedgerFst {α : Type} {r : Exec (Ledger × α)} {E : Panic → Prop}
    (h : Spec r (fun _ => True) E) : Spec (c.onLedgerFst r) (fun _ => True) E := by
  refine spec_onLedger ?_
  cases r with
  | ok => trivial
  | error => exact h

/-- **No call of a delegator and no operation panics in `BigUint`.** -/
theorem endpoint_not_arith (h : c.ledger.Accounted) (hcall : call.administrative = false)
    (he : (Event.transaction env call).cleansDust = false) :
    Spec (c.endpoint env call) (fun _ => True) fun p => ¬ p.Arith := by
  have hsound := h.consistent.sound
  cases call with
  | continueGlobalOperation => exact spec_onLedgerFst (h.continueGlobalOperation_not_arith env)
  | modifyTotalDelegationCap newTotalCap =>
    exact spec_onLedgerFst (h.startOperation_not_arith env (.modifyTotalDelegationCap newTotalCap))
  | setServiceFee fee =>
    exact spec_onLedgerFst (h.startOperation_not_arith env (.setServiceFee fee))
  | claimRewards =>
    exact spec_onLedger (h.not_arith_of_busy (fun hop => c.ledger.claimRewards_of_busy hop env)
      fun hs => (c.ledger.claimRewards_spec env).mono (fun _ _ => trivial)
        fun p hp ha => hp ha hs)
  | stake =>
    refine spec_onLedger
      (h.not_arith_of_busy (fun hop => Ledger.stake_of_busy hop env) fun hs => ?_)
    refine (Ledger.stake_spec hsound env).mono (fun _ _ => trivial) fun p hp => ?_
    rcases hp with hfails | ⟨rfl, -⟩
    · exact hfails.not_arith hs
    · exact Panic.not_arith_scPanic _
  | unStake amount =>
    exact spec_onLedger (h.not_arith_of_busy (fun hop => Ledger.unStake_of_busy hop env amount)
      fun hs => (Ledger.unStake_spec hsound env amount).mono (fun _ _ => trivial)
        fun p hp => hp.not_arith hs)
  | unBond =>
    exact spec_onLedgerFst ((Ledger.unBond_spec hsound env).mono (fun _ _ => trivial)
      fun p hp => hp.1)
  | dustCleanupWaitingList => cases he
  | dustCleanupActive => cases he
  | _ => cases hcall

theorem transaction_not_arith (h : c.ledger.Accounted) (hcall : call.administrative = false)
    (he : (Event.transaction env call).cleansDust = false) :
    Spec (c.transaction env call) (fun _ => True) fun p => ¬ p.Arith := by
  refine Spec.bind (P := fun _ => True) ((spec_require fun _ => Panic.not_arith_scPanic _).imp
    fun _ _ => trivial) fun _ _ => ?_
  have hcredit : (c.credit env.payment).ledger.Accounted :=
    h.act (e := .receive env.payment) .received rfl
  exact endpoint_not_arith hcredit hcall he

end Contract

namespace Ledger

variable {s : Ledger}

/-! ### Solvency -/

/-- Bringing a user up to date gives the user no more than the user is worth. -/
theorem updatedUnclaimed_le_worth (h : s.BooksKept) (u : ℕ) :
    (s.updatedUnclaimed u : ℚ) ≤ s.worth u := by
  have hshare := s.share_le u (s.cumulatedRewards - s.userRewCheckpoint u)
  rw [Nat.cast_sub (h.checkpoint_le u)] at hshare
  simp only [updatedUnclaimed, pending, worth, Accrual.value, Nat.cast_add]
  linarith

theorem Solvent.sum_updated_le (h : s.Solvent) (hb : s.BooksKept) :
    ∑ u ∈ Finset.Icc 1 s.numUsers, s.updatedUnclaimed u + s.sentRewards ≤ s.cumulatedRewards := by
  have hsum := Finset.sum_le_sum fun u (_ : u ∈ Finset.Icc 1 s.numUsers) =>
    updatedUnclaimed_le_worth hb u
  simp only [Solvent, Accrual.Solvent] at h
  have hcast : ((∑ u ∈ Finset.Icc 1 s.numUsers, s.updatedUnclaimed u + s.sentRewards : ℕ) : ℚ) ≤
      s.cumulatedRewards := by
    push_cast
    exact (add_le_add_left hsum _).trans h
  exact_mod_cast hcast

end Ledger

/-- **Reward solvency.** In every reachable state the rewards that are stored and those that were
sent have arrived; unless funds are being swapped, so have the rewards of all users brought up to
date. No call of a delegator and no operation ends with a panic of `BigUint`. -/
theorem rewards_solvent_of_reachable {w : World}
    (h : Reachable (fun _ e => e.cleansDust = false) w) :
    ∑ u ∈ Finset.Icc 1 w.contract.ledger.numUsers, w.contract.ledger.userRewUnclaimed u +
        w.contract.ledger.sentRewards ≤ w.contract.ledger.cumulatedRewards ∧
    (w.contract.ledger.globalOpCheckpoint.swapping = false → ∃ updated : ℕ → UserRewardData,
      (∀ u ∈ Finset.Icc 1 w.contract.ledger.numUsers,
        w.contract.ledger.loadUpdatedUserRewards u = .ok (updated u)) ∧
      ∑ u ∈ Finset.Icc 1 w.contract.ledger.numUsers, (updated u).unclaimedRewards +
        w.contract.ledger.sentRewards ≤ w.contract.ledger.cumulatedRewards) ∧
    ∀ env call p, call.administrative = false →
      (Event.transaction env call).cleansDust = false →
      w.contract.transaction env call = .error p → ¬ p.Arith := by
  have hacc := h.accounted
  refine ⟨hacc.sum_le, fun hno => ?_, fun env call p hcall he hp =>
    (Contract.transaction_not_arith hacc hcall he).of_error hp⟩
  have hs := hacc.steady hno
  exact ⟨fun u => ⟨w.contract.ledger.cumulatedRewards, w.contract.ledger.updatedUnclaimed u⟩,
    fun u _ => (hs.computable u).loadUpdatedUserRewards_eq,
    (hacc.rewardsCovered.solvent hno).sum_updated_le hacc.consistent.books⟩

/-- A delegator claims, more rewards arrive, and a cut of the cap is interrupted while funds are
swapped. -/
theorem rewards_solvent_of_reachable_cut :
    ∃ w : World, w.contract.ledger.globalOpCheckpoint.swapping = true ∧
      w.contract.ledger.sentRewards = 360 ∧ w.contract.ledger.cumulatedRewards = 1007 ∧
      ∑ u ∈ Finset.Icc 1 w.contract.ledger.numUsers, w.contract.ledger.userRewUnclaimed u +
        w.contract.ledger.sentRewards ≤ w.contract.ledger.cumulatedRewards := by
  let events : List Event :=
    [.transaction { Env.plain 1 0 9 with payment := 60 } .stake,
      .transaction { Env.plain 7 0 9 with payment := 40 } .stake, .reward 1000,
      .transaction (.plain 7 1 9) .claimRewards, .reward 7,
      .transaction { Env.plain 1 2 9 with gasLow := fun i k => decide (i = 3 ∧ k = 1) }
        (.modifyTotalDelegationCap 50)]
  have hrun : ((World.deploy 1 0 2 1000 0 9 1 100).bind (·.run events)).map (fun w =>
      (w.contract.ledger.globalOpCheckpoint.swapping, w.contract.ledger.sentRewards,
        w.contract.ledger.cumulatedRewards)) = some (true, 360, 1007) := by
    decide +kernel
  obtain ⟨w, hw, hobs⟩ := Option.map_eq_some_iff.mp hrun
  simp only [Prod.mk.injEq] at hobs
  obtain ⟨hsw, hsent, hcum⟩ := hobs
  have hreach : Reachable (fun _ e => e.cleansDust = false) w := by
    refine .run (fun _ h => World.initial_deploy h) (fun e he _ => ?_) hw
    simp only [events, List.mem_cons, List.not_mem_nil, or_false] at he
    rcases he with rfl | rfl | rfl | rfl | rfl | rfl <;> rfl
  exact ⟨w, hsw, hsent, hcum, (rewards_solvent_of_reachable hreach).1⟩

end Delegation
