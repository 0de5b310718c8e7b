import Delegation.Latest.State

/-!
# Rewards

The model of `latest/src/rewards_state.rs` and `rewards_endpoints.rs`. The rewards of a delegator
are computed lazily: `load_updated_user_rewards` adds to the stored unclaimed amount the share of
what arrived since the user's checkpoint, under the stakes, the cap and the service fee of now.

`Ledger.pending` is that share as a formula. `loadUpdatedUserRewards_eq` says that the code computes
it and panics exactly when the checkpoint is ahead of the rewards, the fee is more than the whole,
or an active stake meets a cap of zero.
-/

namespace Delegation

open Outcome

/-- `UserRewardData` -/
structure UserRewardData where
  rewardCheckpoint : ℕ
  unclaimedRewards : ℕ
  deriving DecidableEq, Repr

namespace Ledger

/-! ### The source functions -/

/-- `split_service_reward`: the service reward and the reward of the delegators, both rounded
down. -/
def splitServiceReward (s : Ledger) (totRewards : ℕ) : Exec (ℕ × ℕ) := do
  let serviceRewards := s.serviceFee * totRewards / percentageDenominator
  let delegatorsShare ← bigSub percentageDenominator s.serviceFee
  return (serviceRewards, delegatorsShare * totRewards / percentageDenominator)

/-- `load_user_reward_data` -/
def loadUserRewardData (s : Ledger) (userId : ℕ) : UserRewardData where
  rewardCheckpoint := s.userRewCheckpoint userId
  unclaimedRewards := s.userRewUnclaimed userId

/-- `store_user_reward_data` -/
@[simps]
def storeUserRewardData (s : Ledger) (userId : ℕ) (data : UserRewardData) : Ledger :=
  { s with
    userRewCheckpoint := Function.update s.userRewCheckpoint userId data.rewardCheckpoint
    userRewUnclaimed := Function.update s.userRewUnclaimed userId data.unclaimedRewards }

/-- What `load_updated_user_rewards` adds for the owner: the service fee and the rewards of the
missing active stake. -/
def ownerExtraRewards (s : Ledger) (userId serviceRewards totalDelegatorsRewards : ℕ) :
    Exec ℕ :=
  let totStakeActive := s.userStakeOfType 0 .active
  if userId = ownerUserId then
    if totStakeActive < s.totalDelegationCap then do
      let missingStake := s.totalDelegationCap - totStakeActive
      let ownerUnstakedRewards ←
        bigDiv (totalDelegatorsRewards * missingStake) s.totalDelegationCap
      return serviceRewards + ownerUnstakedRewards
    else .ok serviceRewards
  else .ok 0

/-- What `load_updated_user_rewards` adds for the active stake of a user. -/
def delegatorNewRewards (s : Ledger) (userId totalDelegatorsRewards : ℕ) : Exec ℕ :=
  let uStakeActive := s.userStakeOfType userId .active
  if 0 < uStakeActive then bigDiv (totalDelegatorsRewards * uStakeActive) s.totalDelegationCap
  else .ok 0

/-- `load_updated_user_rewards`: does not update storage. -/
def loadUpdatedUserRewards (s : Ledger) (userId : ℕ) : Exec UserRewardData := do
  let userData := s.loadUserRewardData userId
  -- new rewards are what was added since the last time rewards were computed
  let totNewRewards ← bigSub s.cumulatedRewards userData.rewardCheckpoint
  if totNewRewards = 0 then return userData
  else
    let (serviceRewards, totalDelegatorsRewards) ← s.splitServiceReward totNewRewards
    let ownerRewards ← s.ownerExtraRewards userId serviceRewards totalDelegatorsRewards
    let delegatorRewards ← s.delegatorNewRewards userId totalDelegatorsRewards
    return {
      rewardCheckpoint := s.cumulatedRewards
      unclaimedRewards := userData.unclaimedRewards + ownerRewards + delegatorRewards }

/-- `compute_one_user_reward` -/
def computeOneUserReward (s : Ledger) (userId : ℕ) : Exec Ledger := do
  let userData ← s.loadUpdatedUserRewards userId
  return s.storeUserRewardData userId userData

/-- `getClaimableRewards` -/
def claimableRewards (s : Ledger) (user : Address) : Exec ℕ :=
  if s.userId user = 0 then .ok 0
  else do
    let userData ← s.loadUpdatedUserRewards (s.userId user)
    return userData.unclaimedRewards

/-- `total_unprotected` -/
def totalUnprotected (s : Ledger) : Exec ℕ := do
  let unprotected := s.balance + s.sentRewards
  let unprotected ← bigSub unprotected s.cumulatedRewards
  let unprotected ← bigSub unprotected (s.userStakeOfType 0 .waiting)
  let unprotected ← bigSub unprotected (s.userStakeOfType 0 .deferredPayment)
  bigSub unprotected (s.userStakeOfType 0 .withdrawOnly)

/-- `send_rewards` -/
def sendRewards (s : Ledger) (recipient : Address) (amount : ℕ) : Exec Ledger := do
  let s ← s.directEgld recipient amount
  return { s with sentRewards := s.sentRewards + amount }

/-- `claimRewards` -/
def claimRewards (s : Ledger) (env : Env) : Exec Ledger := do
  require (s.paused = false) "contract paused"
  s.checkFeatureOn "claimRewards" true
  let userId := s.userId env.caller
  require (userId ≠ 0) "unknown caller"
  require (s.isGlobalOpInProgress = false)
    "claim rewards is temporarily paused as checkpoint is reset"
  let userData ← s.loadUpdatedUserRewards userId
  if 0 < userData.unclaimedRewards then
    let s ← s.sendRewards env.caller userData.unclaimedRewards
    return s.storeUserRewardData userId { userData with unclaimedRewards := 0 }
  else return s.storeUserRewardData userId userData

/-! ### The share as a formula -/

/-- The delegators' part of `totNewRewards`. -/
def delegatorsPart (s : Ledger) (totNewRewards : ℕ) : ℕ :=
  (percentageDenominator - s.serviceFee) * totNewRewards / percentageDenominator

/-- The share of a user in rewards that arrive under the stakes, the cap and the fee of now. -/
def share (s : Ledger) (userId totNewRewards : ℕ) : ℕ :=
  (if userId = ownerUserId then
    s.serviceFee * totNewRewards / percentageDenominator +
      s.delegatorsPart totNewRewards *
        (s.totalDelegationCap - s.userStakeOfType 0 .active) / s.totalDelegationCap
    else 0) +
    s.delegatorsPart totNewRewards * s.userStakeOfType userId .active / s.totalDelegationCap

/-- The rewards of a user that are not yet in storage. -/
def pending (s : Ledger) (userId : ℕ) : ℕ :=
  s.share userId (s.cumulatedRewards - s.userRewCheckpoint userId)

/-- `load_updated_user_rewards(u).unclaimed_rewards` -/
def updatedUnclaimed (s : Ledger) (userId : ℕ) : ℕ := s.userRewUnclaimed userId + s.pending userId

variable {s s' : Ledger} {u : ℕ}

@[simp]
theorem share_zero : s.share u 0 = 0 := by simp [share, delegatorsPart]

/-- The conditions under which computing the rewards of a user does not panic. -/
structure Computable (s : Ledger) (userId : ℕ) : Prop where
  checkpoint_le : s.userRewCheckpoint userId ≤ s.cumulatedRewards
  serviceFee_le : s.serviceFee ≤ percentageDenominator
  cap_pos : 0 < s.userStakeOfType userId .active → 0 < s.totalDelegationCap

theorem ownerExtraRewards_eq (serviceRewards d : ℕ) :
    s.ownerExtraRewards u serviceRewards d =
      .ok (if u = ownerUserId then serviceRewards +
        d * (s.totalDelegationCap - s.userStakeOfType 0 .active) / s.totalDelegationCap
        else 0) := by
  simp only [ownerExtraRewards]
  split_ifs with hu h
  · have hpos : s.totalDelegationCap ≠ 0 := by omega
    simp [bigDiv, hpos]
  · simp [Nat.sub_eq_zero_of_le (not_lt.mp h)]
  · rfl

theorem delegatorNewRewards_eq (d : ℕ)
    (h : 0 < s.userStakeOfType u .active → 0 < s.totalDelegationCap) :
    s.delegatorNewRewards u d =
      .ok (d * s.userStakeOfType u .active / s.totalDelegationCap) := by
  simp only [delegatorNewRewards]
  split_ifs with hpos
  · have hcap : s.totalDelegationCap ≠ 0 := (h hpos).ne'
    simp [bigDiv, hcap]
  · simp [Nat.eq_zero_of_not_pos hpos]

/-- Nothing happened since the last time the rewards of the user were computed. -/
theorem loadUpdatedUserRewards_of_eq (h : s.userRewCheckpoint u = s.cumulatedRewards) :
    s.loadUpdatedUserRewards u = .ok (s.loadUserRewardData u) := by
  simp [loadUpdatedUserRewards, loadUserRewardData, h, bigSub]

/-- **The code computes the formula.** -/
theorem Computable.loadUpdatedUserRewards_eq (h : s.Computable u) :
    s.loadUpdatedUserRewards u =
      .ok { rewardCheckpoint := s.cumulatedRewards, unclaimedRewards := s.updatedUnclaimed u } := by
  rcases h.checkpoint_le.eq_or_lt with heq | hlt
  · rw [loadUpdatedUserRewards_of_eq heq]
    simp [loadUserRewardData, updatedUnclaimed, pending, heq]
  · have hnew : s.cumulatedRewards - s.userRewCheckpoint u ≠ 0 := by omega
    simp only [loadUpdatedUserRewards, loadUserRewardData, bigSub_of_le h.checkpoint_le, ok_bind,
      if_neg hnew, splitServiceReward, bigSub_of_le h.serviceFee_le, pure_eq_ok,
      ownerExtraRewards_eq, delegatorNewRewards_eq _ h.cap_pos]
    simp only [updatedUnclaimed, pending, share, delegatorsPart, add_assoc]

end Ledger

end Delegation
