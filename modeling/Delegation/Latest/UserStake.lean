import Delegation.Latest.Rewards

/-!
# Staking and unstaking

The model of `latest/src/user_stake_state.rs` and `user_stake_endpoints.rs`. A stake enters the
queue of waiting funds; `use_waiting_to_replace_unstaked` then activates from that queue, either up
to the delegation cap while the contract is in bootstrap mode, or against the funds that others
have unstaked.
-/

namespace Delegation

open Outcome

/-- The interrupt closure `|| false`. -/
def never : ℕ → Bool := fun _ => false

namespace Ledger

/-! ### `user_stake_state` -/

/-- The loop body over the affected users. -/
def computeAffectedUserReward (s : Ledger) (userId : ℕ) : Exec Ledger := do
  require (userId ≠ 0) "bad user_id"
  s.computeOneUserReward userId

/-- `swap_waiting_to_active_compute_rewards` -/
def swapWaitingToActiveComputeRewards (s : Ledger) (swappable : ℕ) : Exec Ledger := do
  -- dry run of swap, to get the affected users
  let (funds, affectedUsers, remaining) ←
    s.funds.getAffectedUsersOfSwapWaitingToActive swappable never
  require (remaining = 0) "error swapping waiting to active"
  -- compute rewards for all affected users
  let s := { s with funds := funds }
  let s ← s.computeOneUserReward ownerUserId
  let s ← affectedUsers.foldlM computeAffectedUserReward s
  -- actual swap of waiting to active
  let (funds, remaining, _) ← s.funds.swapWaitingToActive swappable never
  require (remaining = 0) "error swapping waiting to active"
  return { s with funds := funds }

/-- `use_waiting_to_replace_unstaked` in bootstrap mode: all unstaked funds go away, and waiting
funds fill the delegation cap. -/
def useWaitingInBootstrapMode (s : Ledger) : Exec Ledger := do
  let totalUnstaked := s.userStakeOfType 0 .unStaked
  let (funds, totalUnstaked) ← s.funds.swapUnstakedToDeferredPayment totalUnstaked never
  require (totalUnstaked = 0) "error swapping unstaked to deferred payment"
  let totalActive := funds.typeTotal .active
  let fillableActiveStake ← bigSub s.totalDelegationCap totalActive
  let (funds, fillableActiveStake, _) ← funds.swapWaitingToActive fillableActiveStake never
  -- this happens only when waiting was enough to fill the delegation cap
  let bootstrapMode := if fillableActiveStake = 0 then false else s.bootstrapMode
  return { s with funds := funds, bootstrapMode := bootstrapMode }

/-- `use_waiting_to_replace_unstaked` -/
def useWaitingToReplaceUnstaked (s : Ledger) : Exec Ledger :=
  if s.bootstrapMode then s.useWaitingInBootstrapMode
  else
    let swappable := min (s.userStakeOfType 0 .waiting) (s.userStakeOfType 0 .unStaked)
    if swappable = 0 then .ok s
    else do
      let (funds, unstakedSwapRemaining) ←
        s.funds.swapUnstakedToDeferredPayment swappable never
      require (unstakedSwapRemaining = 0) "error swapping unstaked to deferred payment"
      let s := { s with funds := funds }
      s.swapWaitingToActiveComputeRewards swappable

/-- `validateDelegationCapInvariant` -/
def validateDelegationCapInvariant (s : Ledger) : Exec Unit :=
  let totalActive := s.userStakeOfType 0 .active
  let totalUnstaked := s.userStakeOfType 0 .unStaked
  if s.bootstrapMode then
    require (totalActive + totalUnstaked < s.totalDelegationCap)
      "delegation cap invariant violated"
  else
    require (totalActive + totalUnstaked = s.totalDelegationCap)
      "delegation cap invariant violated"

/-- `process_stake` -/
def processStake (s : Ledger) (env : Env) (payment : ℕ) : Exec Ledger := do
  let (s, userId) := s.getOrCreateUser env.caller
  let s := { s with funds := s.funds.createWaiting env.blockNonce userId payment }
  s.validateDelegationCapInvariant
  s.useWaitingToReplaceUnstaked

/-- `validate_user_minimum_stake`; the active stake it adds is the total one. -/
def validateUserMinimumStake (s : Ledger) (userId : ℕ) : Exec Unit :=
  let waiting := s.userStakeOfType userId .waiting
  let active := s.userStakeOfType 0 .active
  let relevantStake := waiting + active
  require (relevantStake = 0 ∨ s.minStake ≤ relevantStake)
    "cannot have waiting + active stake less than minimum stake"

/-- `validateOwnerStakeShare` -/
def validateOwnerStakeShare (s : Ledger) : Exec Unit :=
  require (s.userStakeOfType 0 .active * s.ownerMinStakeShare ≤
      s.userStakeOfType ownerUserId .active * percentageDenominator)
    "owner doesn't have enough stake in the contract"

/-- `validate_unstake_amount` -/
def validateUnstakeAmount (s : Ledger) (userId amount : ℕ) : Exec Unit :=
  let maxUnstake := s.userStakeOfType userId .waiting + s.userStakeOfType userId .active
  if maxUnstake < amount then
    .error (.scPanic "cannot unstake more than the user waiting + active stake")
  else if amount = maxUnstake then .ok ()
  else require (s.minStake ≤ amount) "cannot unstake less than minimum stake"

/-! ### `user_stake_endpoints` -/

/-- `stake` -/
def stake (s : Ledger) (env : Env) : Exec Ledger := do
  require (s.paused = false) "contract paused"
  require (s.minStake ≤ env.payment) "cannot stake less than minimum stake"
  require (s.isGlobalOpInProgress = false)
    "staking is temporarily paused as checkpoint is reset"
  s.processStake env env.payment

/-- What `unStake` does when the waiting funds of the user do not cover the sum. -/
def unStakeActive (s : Ledger) (env : Env) (unstakeUserId remaining : ℕ) : Exec Ledger := do
  -- compute rewards before converting Active -> UnStaked
  let s ← s.computeOneUserReward ownerUserId
  let s ← s.computeOneUserReward unstakeUserId
  let (funds, remaining) ←
    s.funds.swapUserActiveToUnstaked env.blockNonce unstakeUserId remaining env.fuel
  require (remaining = 0) "error converting Active to UnStaked"
  let s := { s with funds := funds }
  let s ← s.useWaitingToReplaceUnstaked
  s.validateUserMinimumStake unstakeUserId
  return s

/-- `unStake` -/
def unStake (s : Ledger) (env : Env) (amount : ℕ) : Exec Ledger := do
  require (s.paused = false) "contract paused"
  require (s.isGlobalOpInProgress = false)
    "unstaking is temporarily paused as checkpoint is reset"
  let unstakeUserId := s.userId env.caller
  require (unstakeUserId ≠ 0) "only delegators can unstake"
  s.validateUnstakeAmount unstakeUserId amount
  -- first try to remove funds from waiting list
  let (funds, remaining) ← s.funds.swapUserWaitingToWithdrawOnly unstakeUserId amount env.fuel
  let s := { s with funds := funds }
  -- waiting list entries may cover the whole sum
  if remaining = 0 then return s else s.unStakeActive env unstakeUserId remaining

/-- `unBond`: returns the amount liquidated. -/
def unBond (s : Ledger) (env : Env) : Exec (Ledger × ℕ) := do
  require (s.paused = false) "contract paused"
  let callerId := s.userId env.caller
  require (0 < callerId) "unknown caller"
  let (funds, _) ← s.funds.swapEligibleDeferredToWithdraw env.blockNonce callerId
    s.nBlocksBeforeUnbond (env.gasLow 0) env.fuel
  let (funds, amountLiquidated) ←
    funds.liquidateAllWithdrawOnly callerId (env.gasLow 1) env.fuel
  let s := { s with funds := funds }
  if 0 < amountLiquidated then
    let s ← s.directEgld env.caller amountLiquidated
    return (s, amountLiquidated)
  else return (s, amountLiquidated)

end Ledger

end Delegation
