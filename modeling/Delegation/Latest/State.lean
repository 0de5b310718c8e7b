import Delegation.Fund.Transformations
import Delegation.Node.Config

/-!
# The storage of the contract

`Ledger` is the storage of the modules that deal with delegators and their funds (`user_data`,
`fund_module`, `settings`, `rewards_state`, `reset_checkpoint_state`, `user_stake_dust_cleanup`, and
the pause and feature flags of the third-party modules), together with what the blockchain keeps
for the contract: its owner, its balance, the validator rewards it has received since its creation
and the EGLD it has sent to each address. `Contract` adds the node registry, which no endpoint of
the delegators touches.

Events are not modelled: they are written and never read.
-/

namespace Delegation

open Outcome

/-- `OWNER_USER_ID`: validator rewards go to user 1. -/
def ownerUserId : ℕ := 1

/-- `PERCENTAGE_DENOMINATOR` -/
def percentageDenominator : ℕ := 10000

/-- `OperationCompletionStatus` -/
inductive OperationCompletionStatus
  | completed
  | interruptedBeforeOutOfGas
  deriving DecidableEq, Repr

/-- The interrupted state of `compute_all_rewards`. -/
structure ComputeAllRewardsData where
  lastId : ℕ
  sumUnclaimed : ℕ
  rewardsCheckpoint : ℕ
  deriving DecidableEq, Repr

/-- `ComputeAllRewardsData::new` -/
def ComputeAllRewardsData.new (rewardsCheckpoint : ℕ) : ComputeAllRewardsData where
  lastId := 0
  sumUnclaimed := 0
  rewardsCheckpoint := rewardsCheckpoint

/-- The steps of a change of the total delegation cap. -/
inductive ModifyDelegationCapStep
  | computeAllRewards (data : ComputeAllRewardsData)
  | swapWaitingToActive
  | swapUnstakedToDeferredPayment
  | swapActiveToDeferredPayment
  deriving DecidableEq, Repr

/-- What is kept while the total delegation cap changes. -/
structure ModifyTotalDelegationCapData where
  newDelegationCap : ℕ
  remainingSwapWaitingToActive : ℕ
  remainingSwapActiveToDefP : ℕ
  remainingSwapUnstakedToDefP : ℕ
  step : ModifyDelegationCapStep
  deriving DecidableEq, Repr

/-- An operation that can pause itself and continue in another block. -/
inductive GlobalOpCheckpoint
  | none
  | modifyTotalDelegationCap (mdcapData : ModifyTotalDelegationCapData)
  | changeServiceFee (newServiceFee : ℕ) (computeRewardsData : ComputeAllRewardsData)
  deriving DecidableEq, Repr

/-- The storage of everything but the nodes. -/
structure Ledger where
  -- user_data
  userId : Address → ℕ
  userAddress : ℕ → Option Address
  numUsers : ℕ
  -- fund_module
  funds : FundStore
  -- settings
  auctionAddr : Address
  serviceFee : ℕ
  totalDelegationCap : ℕ
  bootstrapMode : Bool
  ownerMinStakeShare : ℕ
  nBlocksBeforeUnbond : UInt64
  minStake : ℕ
  -- rewards_state
  userRewUnclaimed : ℕ → ℕ
  userRewCheckpoint : ℕ → ℕ
  sentRewards : ℕ
  -- reset_checkpoint_state and user_stake_dust_cleanup
  globalOpCheckpoint : GlobalOpCheckpoint
  dustCleanupCheckpoint : ℕ
  -- the third-party modules
  featureFlag : String → Option Bool
  paused : Bool
  -- blockchain
  owner : Address
  balance : ℕ
  cumulatedRewards : ℕ
  paidOut : Address → ℕ

namespace Ledger

/-! ### Access to the storage -/

/-- `get_user_stake_of_type`; the id 0 stands for the totals. -/
def userStakeOfType (s : Ledger) (userId : ℕ) (fundType : FundType) : ℕ :=
  if userId = 0 then s.funds.typeTotal fundType else s.funds.userTotal userId fundType

/-- `is_global_op_in_progress` -/
def isGlobalOpInProgress (s : Ledger) : Bool := s.globalOpCheckpoint != .none

/-- `check_feature_on` of the features module: an unset flag takes the default. -/
def checkFeatureOn (s : Ledger) (featureName : String) (default : Bool) : Exec Unit :=
  require ((s.featureFlag featureName).getD default) (featureName ++ " currently disabled")

/-- `#[only_owner]` -/
def onlyOwner (s : Ledger) (env : Env) : Exec Unit :=
  require (env.caller = s.owner) "Endpoint can only be called by owner"

/-- `direct_egld` -/
def directEgld (s : Ledger) (recipient : Address) (amount : ℕ) : Exec Ledger :=
  if amount ≤ s.balance then
    .ok { s with
      balance := s.balance - amount
      paidOut := Function.update s.paidOut recipient (s.paidOut recipient + amount) }
  else .error .insufficientFunds

/-! ### Delegators -/

/-- `get_or_create_user` -/
def getOrCreateUser (s : Ledger) (address : Address) : Ledger × ℕ :=
  let userId := s.userId address
  if userId = 0 then
    let userId := s.numUsers + 1
    ({ s with
      numUsers := userId
      userId := Function.update s.userId address userId
      userAddress := Function.update s.userAddress userId (some address) }, userId)
  else if s.userAddress userId = none then
    ({ s with userAddress := Function.update s.userAddress userId (some address) }, userId)
  else (s, userId)

/-- The loop body of `update_user_address`: the storage and the three counts. -/
def updateOneUserAddress (c : Ledger × ℕ × ℕ × ℕ) (address : Address) : Ledger × ℕ × ℕ × ℕ :=
  let (s, numUpdated, numNotUpdated, numNotFound) := c
  let userId := s.userId address
  if 0 < userId then
    if s.userAddress userId = none then
      ({ s with userAddress := Function.update s.userAddress userId (some address) },
        numUpdated + 1, numNotUpdated, numNotFound)
    else (s, numUpdated, numNotUpdated + 1, numNotFound)
  else (s, numUpdated, numNotUpdated, numNotFound + 1)

/-- `updateUserAddress` -/
def updateUserAddress (s : Ledger) (addresses : List Address) : Ledger × ℕ × ℕ × ℕ :=
  addresses.foldl updateOneUserAddress (s, 0, 0, 0)

end Ledger

/-- The storage of the whole contract. -/
structure Contract where
  ledger : Ledger
  nodes : NodeStore

/-- `init`; the blockchain gives the new contract its balance. -/
def Contract.init (env : Env) (balance : ℕ) (auctionContractAddr : Address)
    (serviceFeePer10000 ownerMinStakeSharePer10000 : ℕ) (nBlocksBeforeUnbond : UInt64)
    (minimumStake totalDelegationCap : ℕ) : Exec Contract := do
  require (serviceFeePer10000 ≤ percentageDenominator) "service fee out of range"
  require (ownerMinStakeSharePer10000 ≤ percentageDenominator)
    "owner min stake share out of range"
  return {
    ledger := {
      userId := Function.update (fun _ => 0) env.caller ownerUserId
      userAddress := Function.update (fun _ => none) ownerUserId (some env.caller)
      numUsers := 1
      funds := .empty
      auctionAddr := auctionContractAddr
      serviceFee := serviceFeePer10000
      totalDelegationCap := totalDelegationCap
      bootstrapMode := true
      ownerMinStakeShare := ownerMinStakeSharePer10000
      nBlocksBeforeUnbond := nBlocksBeforeUnbond
      minStake := minimumStake
      userRewUnclaimed := fun _ => 0
      userRewCheckpoint := fun _ => 0
      sentRewards := 0
      globalOpCheckpoint := .none
      dustCleanupCheckpoint := 0
      featureFlag := fun _ => none
      paused := false
      owner := env.caller
      balance := balance
      cumulatedRewards := 0
      paidOut := fun _ => 0 }
    nodes := .empty }

end Delegation
