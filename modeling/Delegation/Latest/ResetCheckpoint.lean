import Delegation.Latest.UserStake

/-!
# Global operations

The model of `latest/src/reset_checkpoint_endpoints.rs`. Changing the total delegation cap or the
service fee first brings the rewards of every user up to date; a change of the cap then swaps funds
in three phases. Each phase stops when the gas runs low, the checkpoint is stored, and
`continueGlobalOperation` resumes from it.

The four gas guarded loops of one call are numbered in the order in which they run: the computation
of the rewards, then the three swaps.
-/

namespace Delegation

open Outcome Loop

namespace Ledger

/-- The loop body of `compute_all_rewards`. -/
def computeNextReward (c : Ledger × ComputeAllRewardsData) :
    Exec (Ledger × ComputeAllRewardsData) := do
  let (s, data) := c
  let currentUserId := data.lastId + 1
  let userData ← s.loadUpdatedUserRewards currentUserId
  return (s.storeUserRewardData currentUserId userData,
    { data with
      sumUnclaimed := data.sumUnclaimed + userData.unclaimedRewards
      lastId := currentUserId })

/-- Divisions are inexact, so a remainder can be left after distributing rewards: it is given to
the owner. -/
def giveRemainderToOwner (s : Ledger) (sumUnclaimed : ℕ) : Exec Ledger := do
  let remainder ← bigSub s.cumulatedRewards sumUnclaimed
  let remainder ← bigSub remainder s.sentRewards
  return { s with
    userRewUnclaimed := Function.update s.userRewUnclaimed ownerUserId
      (s.userRewUnclaimed ownerUserId + remainder) }

/-- If more rewards arrived since the computation started, it is restarted from scratch. -/
def restartIfMoreRewards (s : Ledger) (data : ComputeAllRewardsData) : ComputeAllRewardsData :=
  if data.rewardsCheckpoint = s.cumulatedRewards then data
  else .new s.cumulatedRewards

/-- `compute_all_rewards`: returns something if there is more computing to be done. -/
def computeAllRewards (s : Ledger) (data : ComputeAllRewardsData) (gasLow : ℕ → Bool) :
    Exec (Ledger × Option ComputeAllRewardsData) := do
  let data := s.restartIfMoreRewards data
  let (s, data) ← whileLoop (fun k c => decide (c.2.lastId < c.1.numUsers) && !gasLow k)
    computeNextReward .outOfGas (s.numUsers - data.lastId) 0 (s, data)
  if data.lastId < s.numUsers then return (s, some data)
  else
    let s ← s.giveRemainderToOwner data.sumUnclaimed
    return (s, none)

/-- `continue_modify_total_delegation_cap_step` -/
def continueModifyTotalDelegationCapStep (s : Ledger) (env : Env)
    (mdcapData : ModifyTotalDelegationCapData) :
    Exec (Ledger × OperationCompletionStatus × GlobalOpCheckpoint) :=
  match mdcapData.step with
  | .computeAllRewards carData => do
      let (s, moreComputation) ← s.computeAllRewards carData (env.gasLow 0)
      match moreComputation with
      | some moreComputation =>
          return (s, .interruptedBeforeOutOfGas, .modifyTotalDelegationCap
            { mdcapData with step := .computeAllRewards moreComputation })
      | none =>
          return (s, .completed, .modifyTotalDelegationCap
            { mdcapData with step := .swapWaitingToActive })
  | .swapWaitingToActive => do
      let (funds, remaining, _) ←
        s.funds.swapWaitingToActive mdcapData.remainingSwapWaitingToActive (env.gasLow 1)
      let s := { s with funds := funds }
      let mdcapData := { mdcapData with remainingSwapWaitingToActive := remaining }
      if 0 < remaining then
        return (s, .interruptedBeforeOutOfGas, .modifyTotalDelegationCap mdcapData)
      else
        return (s, .completed, .modifyTotalDelegationCap
          { mdcapData with step := .swapUnstakedToDeferredPayment })
  | .swapUnstakedToDeferredPayment => do
      let (funds, remaining) ←
        s.funds.swapUnstakedToDeferredPayment mdcapData.remainingSwapUnstakedToDefP (env.gasLow 2)
      let s := { s with funds := funds }
      let mdcapData := { mdcapData with remainingSwapUnstakedToDefP := remaining }
      if 0 < remaining then
        return (s, .interruptedBeforeOutOfGas, .modifyTotalDelegationCap mdcapData)
      else
        return (s, .completed, .modifyTotalDelegationCap
          { mdcapData with step := .swapActiveToDeferredPayment })
  | .swapActiveToDeferredPayment => do
      let (funds, remaining) ← s.funds.swapActiveToDeferredPayment env.blockNonce
        mdcapData.remainingSwapActiveToDefP (env.gasLow 3)
      let s := { s with funds := funds }
      if 0 < remaining then
        return (s, .interruptedBeforeOutOfGas, .modifyTotalDelegationCap
          { mdcapData with remainingSwapActiveToDefP := remaining })
      else
        return ({ s with totalDelegationCap := mdcapData.newDelegationCap }, .completed, .none)

/-- `continue_global_operation_step` -/
def continueGlobalOperationStep (s : Ledger) (env : Env) (orc : GlobalOpCheckpoint) :
    Exec (Ledger × OperationCompletionStatus × GlobalOpCheckpoint) :=
  match orc with
  | .none => .ok (s, .completed, orc)
  | .modifyTotalDelegationCap mdcapData => s.continueModifyTotalDelegationCapStep env mdcapData
  | .changeServiceFee newServiceFee computeRewardsData => do
      let (s, moreComputation) ← s.computeAllRewards computeRewardsData (env.gasLow 0)
      match moreComputation with
      | some moreComputation =>
          return (s, .interruptedBeforeOutOfGas, .changeServiceFee newServiceFee moreComputation)
      | none => return ({ s with serviceFee := newServiceFee }, .completed, .none)

/-- `continue_global_operation`. An operation has at most four steps. -/
def continueGlobalOperation (s : Ledger) (env : Env) (orc : GlobalOpCheckpoint) :
    Exec (Ledger × OperationCompletionStatus) := do
  let (s, status, orc) ← whileLoop (fun _ c => c.2.1 == .completed && c.2.2 != .none)
    (fun c => continueGlobalOperationStep c.1 env c.2.2) .outOfGas 4 0 (s, .completed, orc)
  return ({ s with globalOpCheckpoint := orc }, status)

/-- `continueGlobalOperation`, the endpoint -/
def continueGlobalOperationEndpoint (s : Ledger) (env : Env) :
    Exec (Ledger × OperationCompletionStatus) := do
  s.checkFeatureOn "continueGlobalOperation" true
  s.continueGlobalOperation env s.globalOpCheckpoint

/-- The plan of a cap change from `previousTotalCap`; `none` when nothing changes. -/
def planModifyTotalDelegationCap (s : Ledger) (newTotalCap previousTotalCap : ℕ) :
    Exec (Option ModifyTotalDelegationCapData) :=
  let totalUnstaked := s.userStakeOfType 0 .unStaked
  let step := ModifyDelegationCapStep.computeAllRewards (.new s.cumulatedRewards)
  if newTotalCap = previousTotalCap then .ok none
  else if previousTotalCap < newTotalCap then do
    -- cap increases
    require (totalUnstaked = 0)
      "no unstaked funds should be present when increasing delegation cap"
    return some {
      newDelegationCap := newTotalCap
      remainingSwapWaitingToActive := newTotalCap - previousTotalCap
      remainingSwapActiveToDefP := 0
      remainingSwapUnstakedToDefP := 0
      step := step }
  else do
    -- cap decreases
    let swapAmount := previousTotalCap - newTotalCap
    let unprotected ← s.totalUnprotected
    require (swapAmount ≤ unprotected)
      "not enough funds in contract to pay those who are forced unstaked"
    return some {
      newDelegationCap := newTotalCap
      remainingSwapWaitingToActive := 0
      remainingSwapActiveToDefP :=
        if swapAmount ≤ totalUnstaked then 0 else swapAmount - totalUnstaked
      remainingSwapUnstakedToDefP :=
        if swapAmount ≤ totalUnstaked then swapAmount else totalUnstaked
      step := step }

/-- The end of `modifyTotalDelegationCap`, once the previous cap is settled. -/
def startModifyTotalDelegationCap (s : Ledger) (env : Env) (newTotalCap previousTotalCap : ℕ) :
    Exec (Ledger × OperationCompletionStatus) := do
  match ← s.planModifyTotalDelegationCap newTotalCap previousTotalCap with
  | none => return (s, .completed) -- nothing changes
  | some mdcapData => s.continueGlobalOperation env (.modifyTotalDelegationCap mdcapData)

/-- `max_available` of `modifyTotalDelegationCap`. -/
def maxAvailable (s : Ledger) : ℕ :=
  s.userStakeOfType 0 .active + s.userStakeOfType 0 .waiting + s.userStakeOfType 0 .unStaked

/-- `modifyTotalDelegationCap` -/
def modifyTotalDelegationCap (s : Ledger) (env : Env) (newTotalCap : ℕ) :
    Exec (Ledger × OperationCompletionStatus) := do
  s.onlyOwner env
  require (s.isGlobalOpInProgress = false)
    "cannot modify total delegation cap when last is in progress"
  if s.bootstrapMode then
    if s.maxAvailable < newTotalCap then
      -- we remain in bootstrap mode
      return ({ s with totalDelegationCap := newTotalCap }, .completed)
    else
      -- bootstrap mode is over, the previous cap counts as `max_available`
      let previousTotalCap := s.maxAvailable
      let s := { s with bootstrapMode := false }
      s.startModifyTotalDelegationCap env newTotalCap previousTotalCap
  else do
    require (newTotalCap ≤ s.maxAvailable)
      "new delegation cap must be less or equal to total active + waiting"
    s.startModifyTotalDelegationCap env newTotalCap s.totalDelegationCap

/-- `setServiceFee` -/
def setServiceFee (s : Ledger) (env : Env) (serviceFeePer10000 : ℕ) :
    Exec (Ledger × OperationCompletionStatus) := do
  require (serviceFeePer10000 ≤ percentageDenominator) "service fee out of range"
  require (s.isGlobalOpInProgress = false) "global checkpoint is in progress"
  if s.serviceFee = serviceFeePer10000 then return (s, .completed)
  else if s.bootstrapMode then
    -- no rewards to compute
    return ({ s with serviceFee := serviceFeePer10000 }, .completed)
  else
    s.continueGlobalOperation env
      (.changeServiceFee serviceFeePer10000 (.new s.cumulatedRewards))

end Ledger

end Delegation
