import Delegation.Latest.Completion
import Delegation.Latest.Covered
import Delegation.Latest.Rates

/-!
# Solvency of the rewards

The rewards are a case of lazy accrual: the pot is what has arrived, the accounts are the users, the
rate of a user is the part of every new reward that `load_updated_user_rewards` gives the user, but
for rounding, and the rates add up to at most one as long as the cap covers the active funds.

Between the transactions of a swap phase the rates are in motion, and the scheme is suspended: all
users are settled at one checkpoint, and what was in the books then is still all there is. When the
new cap is stored, the scheme is resumed at the new rates.
-/

namespace Delegation

open Outcome FundStore StateTransition

namespace Ledger

variable {s s' : Ledger} {env : Env} {e : Event} {nonce : UInt64} {u : ℕ}

/-! ### The rates of all users -/

/-- The service fee and, on a cap, the part of the delegators. -/
theorem sum_rewardRate (hs : s.Steady) (hk : s.UsersKnown) :
    ∑ u ∈ Finset.Icc 1 s.numUsers, s.rewardRate u =
      (s.serviceFee : ℚ) / percentageDenominator +
        s.delegatorsRate * ((s.totalDelegationCap : ℚ) / s.totalDelegationCap) := by
  have howner : ownerUserId ∈ Finset.Icc 1 s.numUsers :=
    Finset.mem_Icc.mpr ⟨le_rfl, hk.numUsers_pos⟩
  have hothers : ∀ u, u ∉ Finset.Icc 1 s.numUsers → s.funds.userTotal u .active = 0 := by
    intro u hu
    refine hk.userTotal_eq_zero hs.sound ?_ rfl
    rw [Finset.mem_Icc] at hu
    omega
  have hsum : ∑ u ∈ Finset.Icc 1 s.numUsers, s.userStakeOfType u .active =
      s.funds.typeTotal .active := by
    rw [← FundStore.Sound.sum_userTotal hs.sound hothers]
    refine Finset.sum_congr rfl fun u hu => ?_
    have := (Finset.mem_Icc.mp hu).1
    rw [userStakeOfType_of_ne (by omega)]
  simp only [rewardRate, Finset.sum_add_distrib, Finset.sum_ite_eq', if_pos howner,
    ← Finset.mul_sum, ← Finset.sum_div]
  rw [← Nat.cast_sum, hsum, userStakeOfType_zero, Nat.cast_sub hs.active_le]
  ring

theorem fee_add_delegatorsRate (h : s.serviceFee ≤ percentageDenominator) :
    (s.serviceFee : ℚ) / percentageDenominator + s.delegatorsRate = 1 := by
  rw [delegatorsRate, Nat.cast_sub h, ← add_div, add_sub_cancel]
  exact div_self (by norm_num [percentageDenominator])

/-- **The rates add up to at most one.** -/
theorem sum_rewardRate_le (hs : s.Steady) (hk : s.UsersKnown) :
    ∑ u ∈ Finset.Icc 1 s.numUsers, s.rewardRate u ≤ 1 := by
  have hone := fee_add_delegatorsRate hs.serviceFee_le
  have hcap : s.delegatorsRate * ((s.totalDelegationCap : ℚ) / s.totalDelegationCap) ≤
      s.delegatorsRate := mul_le_of_le_one_right s.delegatorsRate_nonneg (div_self_le_one _)
  rw [sum_rewardRate hs hk]
  linarith

/-- On a cap they add up to one. -/
theorem sum_rewardRate_eq (hs : s.Steady) (hk : s.UsersKnown) (hcap : 0 < s.totalDelegationCap) :
    ∑ u ∈ Finset.Icc 1 s.numUsers, s.rewardRate u = 1 := by
  rw [sum_rewardRate hs hk, div_self (Nat.cast_ne_zero.mpr hcap.ne'), mul_one]
  exact fee_add_delegatorsRate hs.serviceFee_le

/-! ### The invariant -/

/-- What a user is worth: what is stored, and the exact part of what has arrived since. -/
def worth (s : Ledger) (u : ℕ) : ℚ :=
  Accrual.value s.cumulatedRewards s.userRewUnclaimed s.userRewCheckpoint s.rewardRate u

/-- What all users are worth and what was sent is covered by what has arrived. -/
def Solvent (s : Ledger) : Prop :=
  Accrual.Solvent (Finset.Icc 1 s.numUsers) s.cumulatedRewards s.sentRewards s.userRewUnclaimed
    s.userRewCheckpoint s.rewardRate

/-- All users were settled at once and nothing has been booked since. -/
structure SettledAt (s : Ledger) (settled : ℕ) : Prop where
  le : settled ≤ s.cumulatedRewards
  checkpoint : ∀ u ∈ Finset.Icc 1 s.numUsers, s.userRewCheckpoint u = settled
  sum_le : ∑ u ∈ Finset.Icc 1 s.numUsers, s.userRewUnclaimed u + s.sentRewards ≤ settled

/-- While funds are swapped the books of the settlement are covered; otherwise all that the users
are worth is. -/
structure RewardsCovered (s : Ledger) : Prop where
  solvent : s.globalOpCheckpoint.swapping = false → s.Solvent
  settled : s.globalOpCheckpoint.swapping = true → ∃ settled, s.SettledAt settled

theorem Neutral.worth_le (h : Neutral s s' u) (hc : s.Computable u) : s'.worth u ≤ s.worth u := by
  rcases h with ⟨hdata, hterms⟩ | ⟨hcum, hload⟩
  · have hcum : s'.cumulatedRewards = s.cumulatedRewards :=
      congrArg RewardTerms.cumulatedRewards hterms
    have hcp : s'.userRewCheckpoint u = s.userRewCheckpoint u :=
      congrArg UserRewardData.rewardCheckpoint hdata
    have hunc : s'.userRewUnclaimed u = s.userRewUnclaimed u :=
      congrArg UserRewardData.unclaimedRewards hdata
    simp only [worth, Accrual.value, hcum, hcp, hunc, rewardRate_congr hterms, le_refl]
  · rw [hc.loadUpdatedUserRewards_eq, Except.ok.injEq] at hload
    have hcp : s.cumulatedRewards = s'.userRewCheckpoint u :=
      congrArg UserRewardData.rewardCheckpoint hload
    have hunc : s.updatedUnclaimed u = s'.userRewUnclaimed u :=
      congrArg UserRewardData.unclaimedRewards hload
    have hshare := s.share_le u (s.cumulatedRewards - s.userRewCheckpoint u)
    rw [Nat.cast_sub hc.checkpoint_le] at hshare
    simp only [worth, Accrual.value, hcum, ← hcp, ← hunc, sub_self, zero_mul, add_zero,
      updatedUnclaimed, pending, Nat.cast_add]
    linarith

/-- What is neutral for all users leaves them covered, also those who are enrolled by it. -/
theorem solvent_of_neutral (h : Accrual.Solvent (Finset.Icc 1 s'.numUsers) s.cumulatedRewards
      s.sentRewards s.userRewUnclaimed s.userRewCheckpoint s.rewardRate) (hs : s.Steady)
    (hcum : s'.cumulatedRewards = s.cumulatedRewards) (hsent : s'.sentRewards = s.sentRewards)
    (hneutral : ∀ u, u ≠ 0 → Neutral s s' u) : s'.Solvent := by
  unfold Solvent
  rw [hsent, hcum]
  refine Accrual.Solvent.of_value_le h fun u hu => ?_
  have hle := (hneutral u (by have := (Finset.mem_Icc.mp hu).1; omega)).worth_le (hs.computable u)
  rwa [worth, hcum] at hle

/-- **What is neutral for all users keeps the rewards covered.** -/
theorem Solvent.of_neutral (h : s.Solvent) (hs : s.Steady)
    (hcum : s'.cumulatedRewards = s.cumulatedRewards) (hnum : s'.numUsers = s.numUsers)
    (hsent : s'.sentRewards = s.sentRewards) (hneutral : ∀ u, u ≠ 0 → Neutral s s' u) :
    s'.Solvent := by
  refine solvent_of_neutral ?_ hs hcum hsent hneutral
  rw [hnum]
  exact h

/-- When everybody is up to date, the rates do not matter. -/
theorem SettledAt.solvent {settled : ℕ} (h : s.SettledAt settled)
    (hrate : ∑ u ∈ Finset.Icc 1 s.numUsers, s.rewardRate u ≤ 1) : s.Solvent :=
  .of_settled h.checkpoint h.sum_le h.le hrate

theorem Solvent.sum_le (h : s.Solvent) (hb : s.BooksKept) :
    ∑ u ∈ Finset.Icc 1 s.numUsers, s.userRewUnclaimed u + s.sentRewards ≤ s.cumulatedRewards :=
  Accrual.Solvent.sum_booked_le h (fun u _ => hb.checkpoint_le u) fun u _ => s.rewardRate_nonneg u

/-- In bootstrap mode nothing has arrived, so everybody is settled. -/
theorem Solvent.settledAt (h : s.Solvent) (hb : s.BooksKept) (hboot : s.bootstrapMode = true) :
    s.SettledAt s.cumulatedRewards :=
  ⟨le_rfl, fun u _ => hb.upToDate hboot u, h.sum_le hb⟩

/-! ### Acts -/

theorem Solvent.claimed {claimed : ℕ} (h : s.Solvent) (hs : s.Steady) (hk : s.UsersKnown)
    (hcl : s.Claimed env s' claimed) : s'.Solvent := by
  obtain ⟨-, hid, hload, -⟩ := hcl
  have hmem : s.userId env.caller ∈ Finset.Icc 1 s.numUsers :=
    Finset.mem_Icc.mpr ⟨Nat.one_le_iff_ne_zero.mpr hid, hk.userId_le _⟩
  -- the rewards are computed, and then all that is stored is paid
  have hmid : (s.storeUserRewardData (s.userId env.caller)
      ⟨s.cumulatedRewards, claimed⟩).Solvent :=
    h.of_neutral hs rfl rfl rfl fun u _ => (settled_storeUserRewardData hload).neutral u
  have hle : claimed ≤ (s.storeUserRewardData (s.userId env.caller)
      ⟨s.cumulatedRewards, claimed⟩).userRewUnclaimed (s.userId env.caller) := by simp
  have hpaid := Accrual.Solvent.pay hmid hmem hle
  have hbooks : Function.update (s.storeUserRewardData (s.userId env.caller)
      ⟨s.cumulatedRewards, claimed⟩).userRewUnclaimed (s.userId env.caller) 0 =
        Function.update s.userRewUnclaimed (s.userId env.caller) 0 := Function.update_idem ..
  simp only [storeUserRewardData_userRewUnclaimed, Function.update_self, Nat.sub_self] at hpaid
  rw [hbooks] at hpaid
  exact hpaid

/-- A deposit may enrol a user, who has nothing yet. -/
theorem Solvent.staked (h : s.Solvent) (hc : s.Consistent) (hs : s.Steady)
    (hst : (s.credit env.payment).Staked env s') : s'.Solvent := by
  have hneutral : ∀ u, u ≠ 0 → Neutral s s' u := fun u hu =>
    have hcredit : Neutral s (s.credit env.payment) u := .inl ⟨rfl, rfl⟩
    hcredit.trans (hst.neutral hc.sound hc.books.upToDate hu)
  have hcum : s'.cumulatedRewards = s.cumulatedRewards := hst.ordinary.cumulatedRewards
  have hsent : s'.sentRewards = s.sentRewards := by
    obtain ⟨-, hdep, -, hre⟩ := hst
    rw [hre.frame, hdep.frame]
    rfl
  obtain ⟨-, -, hcases⟩ := hst.userId_eq
  rcases hcases with ⟨-, -, hnum⟩ | ⟨-, hnum⟩
  · refine solvent_of_neutral ?_ hs hcum hsent hneutral
    have hnum' : s'.numUsers = s.numUsers + 1 := hnum
    -- the books of the next user are empty
    have hactive : s.userStakeOfType (s.numUsers + 1) .active = 0 := by
      rw [userStakeOfType_of_ne (Nat.succ_ne_zero _)]
      exact hc.users.userTotal_eq_zero hc.sound (.inr (Nat.lt_succ_self _)) rfl
    have howner : s.numUsers + 1 ≠ ownerUserId := by
      have := hc.users.numUsers_pos
      simp only [ownerUserId]
      omega
    have hrate : s.rewardRate (s.numUsers + 1) = 0 := by
      simp [rewardRate, if_neg howner, hactive]
    rw [hnum', ← Finset.insert_Icc_right_eq_Icc_add_one (Nat.le_add_left 1 _)]
    exact Accrual.Solvent.enroll h (hc.books.unclaimed _ (Nat.lt_succ_self _)) hrate
  · exact h.of_neutral hs hcum hnum hsent hneutral

/-- An operation is opened before anything is computed; in bootstrap mode it is the whole of it. -/
theorem Solvent.opened {op : Operation} {s₀ : Ledger} {orc : GlobalOpCheckpoint} (h : s.Solvent)
    (hc : s.Consistent) (ho : s.Opened op s₀ orc)
    (hrate : ∑ u ∈ Finset.Icc 1 (s₀.withOp orc).numUsers, (s₀.withOp orc).rewardRate u ≤ 1) :
    (s₀.withOp orc).Solvent := by
  cases ho with
  | capStored hboot | bootstrapEnded hboot | feeStored _ hboot =>
    have hset := h.settledAt hc.books hboot
    exact SettledAt.solvent (s := _) ⟨hset.le, hset.checkpoint, hset.sum_le⟩ hrate
  | capKept | feeKept | feeChange | capChange => exact h

theorem Opened.swapping {op : Operation} {s₀ : Ledger} {orc : GlobalOpCheckpoint}
    (ho : s.Opened op s₀ orc) : orc.swapping = false := by
  cases ho with
  | capChange _ _ hplan => cases hplan <;> rfl
  | _ => rfl

/-- `unStake` is refused during an operation, and leaves the number of users and what was sent. -/
theorem UnStaked.books {amount : ℕ} (h : s.UnStaked env amount s') :
    s.globalOpCheckpoint = .none ∧ s'.numUsers = s.numUsers ∧ s'.sentRewards = s.sentRewards := by
  cases h with
  | fromWaiting hop => exact ⟨hop, rfl, rfl⟩
  | fromActive hop _ _ hset _ _ _ _ _ _ hre =>
    rw [hre.frame, hset.frame]
    exact ⟨hop, rfl, rfl⟩

/-- The invariant looks at the books, the rates and the phase of the operation. -/
theorem RewardsCovered.of_eq (h : s.RewardsCovered)
    (hop : s'.globalOpCheckpoint = s.globalOpCheckpoint) (hnum : s'.numUsers = s.numUsers)
    (hcum : s'.cumulatedRewards = s.cumulatedRewards) (hsent : s'.sentRewards = s.sentRewards)
    (hcp : s'.userRewCheckpoint = s.userRewCheckpoint)
    (hunc : s'.userRewUnclaimed = s.userRewUnclaimed)
    (hterms : ∀ u, u ≠ 0 → s'.rewardTerms u = s.rewardTerms u) : s'.RewardsCovered where
  solvent hno := by
    have hsolvent := h.solvent (hop ▸ hno)
    unfold Solvent at hsolvent ⊢
    rw [hnum, hcum, hsent, hcp, hunc]
    refine Accrual.Solvent.of_value_le hsolvent fun u hu => ?_
    have hne : u ≠ 0 := by have := (Finset.mem_Icc.mp hu).1; omega
    simp only [Accrual.value, rewardRate_congr (hterms u hne), le_refl]
  settled hsw := by
    obtain ⟨settled, hset⟩ := h.settled (hop ▸ hsw)
    exact ⟨settled, by rw [hcum]; exact hset.le, by rw [hnum, hcp]; exact hset.checkpoint,
      by rw [hnum, hunc, hsent]; exact hset.sum_le⟩

theorem rewardsCovered_of_solvent (h : s.Solvent) (hno : s.globalOpCheckpoint.swapping = false) :
    s.RewardsCovered :=
  ⟨fun _ => h, fun hsw => by rw [hno] at hsw; cases hsw⟩

theorem rewardsCovered_of_settled {settled : ℕ} (h : s.SettledAt settled)
    (hsw : s.globalOpCheckpoint.swapping = true) : s.RewardsCovered where
  solvent hno := by
    rw [hsw] at hno
    cases hno
  settled _ := ⟨settled, h⟩

/-- **Acts keep the rewards covered.** -/
theorem RewardsCovered.act (h : s.RewardsCovered) (hc : s.Consistent) (hcap : s.CapTracked)
    (hcap' : s'.CapTracked) (ha : s.Act e s') (he : e.cleansDust = false) :
    s'.RewardsCovered := by
  have hidle : s.globalOpCheckpoint = .none → s.Solvent ∧ s.Steady := fun hop => by
    have hno : s.globalOpCheckpoint.swapping = false := by rw [hop]; rfl
    exact ⟨h.solvent hno, hcap.steady hc hno⟩
  have hnone : ∀ {s'' : Ledger}, Ordinary s s'' → s.globalOpCheckpoint = .none →
      s''.globalOpCheckpoint.swapping = false := fun hord hop => by
    rw [hord.globalOpCheckpoint, hop]
    rfl
  have hc' := hc.act ha
  cases ha with
  | answered | received | continued => exact h.of_eq rfl rfl rfl rfl rfl rfl fun _ _ => rfl
  | kept _ hk =>
    rw [hk.frame]
    exact h.of_eq rfl rfl rfl rfl rfl rfl fun _ _ => rfl
  | unBonded _ hun =>
    have hterms : ∀ u, u ≠ 0 → s'.rewardTerms u = s.rewardTerms u := fun u => hun.rewardTerms_eq
    obtain ⟨-, -, -, -, -, -⟩ := hun
    exact h.of_eq rfl rfl rfl rfl rfl rfl hterms
  | rewarded hboot =>
    refine ⟨fun hno => ?_, fun hsw => ?_⟩
    · exact Accrual.Solvent.arrive (h.solvent hno)
        (sum_rewardRate_le (hcap.steady hc hno) hc.users) _
    · obtain ⟨settled, hset⟩ := h.settled hsw
      exact ⟨settled, hset.le.trans (Nat.le_add_right _ _), hset.checkpoint, hset.sum_le⟩
  | staked hst =>
    have hop : s.globalOpCheckpoint = .none := by obtain ⟨hop, -⟩ := hst; exact hop
    obtain ⟨hsolvent, hs⟩ := hidle hop
    exact rewardsCovered_of_solvent (hsolvent.staked hc hs hst)
      (by rw [hst.ordinary.globalOpCheckpoint, credit_globalOpCheckpoint, hop]; rfl)
  | unStaked _ hun =>
    have hord := hun.ordinary
    obtain ⟨hop, hnum, hsent⟩ := hun.books
    obtain ⟨hsolvent, hs⟩ := hidle hop
    exact rewardsCovered_of_solvent (hsolvent.of_neutral hs hord.cumulatedRewards hnum hsent
      fun u => hun.neutral hc.books.upToDate) (hnone hord hop)
  | claimed _ hcl =>
    have hord := hcl.ordinary
    have hop : s.globalOpCheckpoint = .none := by obtain ⟨hop, -⟩ := hcl; exact hop
    obtain ⟨hsolvent, hs⟩ := hidle hop
    exact rewardsCovered_of_solvent (hsolvent.claimed hs hc.users hcl) (hnone hord hop)
  | operated _ hop _ hopened =>
    have hno := hopened.swapping
    exact rewardsCovered_of_solvent ((hidle hop).1.opened hc hopened
      (sum_rewardRate_le (hcap'.steady hc' hno) hc'.users)) hno
  | waitingCleaned | activeCleaned => cases he

/-! ### Ticks -/

/-- After the remainder is given to the owner the books are exact. -/
theorem AllComputed.settledAt (h : s.AllComputed) : s.SettledAt s.cumulatedRewards :=
  ⟨le_rfl, h.checkpoint, h.sum.le⟩

/-- **Ticks keep the rewards covered.** -/
theorem RewardsCovered.ticked (h : s.RewardsCovered) (hc : s.Consistent) (hcap : s.CapTracked)
    (hcap' : s'.CapTracked) (ht : Ticked nonce s s') : s'.RewardsCovered := by
  have hrate : s'.globalOpCheckpoint.swapping = false →
      ∑ u ∈ Finset.Icc 1 s'.numUsers, s'.rewardRate u ≤ 1 := fun hno =>
    sum_rewardRate_le (hcap'.steady (hc.ticked ht) hno) (hc.ticked ht).users
  cases ht with
  | restarted hop =>
    exact rewardsCovered_of_solvent (h.solvent (GlobalOpCheckpoint.swapping_of_computing hop))
      (GlobalOpCheckpoint.swapping_of_computing (GlobalOpCheckpoint.computing_withData hop _))
  | @settled data userData hop _ _ hload =>
    have hno := GlobalOpCheckpoint.swapping_of_computing hop
    have hsolvent : (s.storeUserRewardData (data.lastId + 1) userData).Solvent :=
      (h.solvent hno).of_neutral (hcap.steady hc hno) rfl rfl rfl
        fun u _ => (settled_storeUserRewardData hload).neutral u
    exact rewardsCovered_of_solvent hsolvent
      (GlobalOpCheckpoint.swapping_of_computing (GlobalOpCheckpoint.computing_withData hop _))
  | feeChanged hop hcp hle hsum =>
    have hset := ((hc.books.computing _ (by rw [hop]; rfl)).withRemainder hc.users.numUsers_pos hcp
      hle hsum).settledAt
    exact rewardsCovered_of_solvent
      (SettledAt.solvent ⟨hset.le, hset.checkpoint, hset.sum_le⟩ (hrate rfl)) rfl
  | rewardsComputed hop hstep hcp hle hsum =>
    have hset := ((hc.books.computing _ (by
      rw [hop]; exact GlobalOpCheckpoint.computing_of_step hstep)).withRemainder
        hc.users.numUsers_pos hcp hle hsum).settledAt
    exact rewardsCovered_of_settled ⟨hset.le, hset.checkpoint, hset.sum_le⟩ rfl
  | activated hop hstep | unstakedDeferred hop hstep | activeDeferred hop hstep =>
    -- while funds are swapped nothing is booked
    obtain ⟨settled, hset⟩ := h.settled (by simp [hop, GlobalOpCheckpoint.swapping, hstep])
    exact rewardsCovered_of_settled ⟨hset.le, hset.checkpoint, hset.sum_le⟩
      (by simp [GlobalOpCheckpoint.swapping, hstep])
  | allActivated hop hstep | allUnstakedDeferred hop hstep =>
    obtain ⟨settled, hset⟩ := h.settled (by simp [hop, GlobalOpCheckpoint.swapping, hstep])
    exact rewardsCovered_of_settled ⟨hset.le, hset.checkpoint, hset.sum_le⟩ rfl
  | capChanged hop hstep =>
    obtain ⟨settled, hset⟩ := h.settled (by simp [hop, GlobalOpCheckpoint.swapping, hstep])
    exact rewardsCovered_of_solvent
      (SettledAt.solvent ⟨hset.le, hset.checkpoint, hset.sum_le⟩ (hrate rfl)) rfl

end Ledger

end Delegation
