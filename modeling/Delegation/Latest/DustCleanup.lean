import Delegation.Latest.UserStake

/-!
# Dust cleanup

The model of `latest/src/user_stake_dust_cleanup.rs`. Both endpoints walk a type list backwards and
convert the items below a limit; both resume from the one stored checkpoint, the raw id of the item
that comes next.

The filter of `dustCleanupActive` computes rewards from within the traversal, so its closure carries
the ledger along; the funds that it reads are those of the traversal.
-/

namespace Delegation

open Outcome

namespace Ledger

/-- `dustCleanupWaitingList` -/
def dustCleanupWaitingList (s : Ledger) (env : Env) (dustLimit : ℕ) : Exec Ledger := do
  s.onlyOwner env
  require (s.isGlobalOpInProgress = false)
    "contract is temporarily paused as checkpoint is reset"
  let (funds, _, checkpoint) ← s.funds.swapDust () s.dustCleanupCheckpoint dustLimit .waiting
    (pureFilter fun _ => some .withdrawOnly) (env.gasLow 0) env.fuel
  return { s with funds := funds, dustCleanupCheckpoint := checkpoint }

/-- The filter of `dust_cleanup_active`. -/
def dustCleanupActiveFilter (funds : FundStore) (s : Ledger) (fundItem : FundItem) :
    Exec (Option FundDescription × Ledger) :=
  if fundItem.userId = 0 then .ok (none, s)
  else do
    let s := { s with funds := funds }
    let s ← s.computeOneUserReward fundItem.userId
    return (some (.unStaked 0), s)

/-- The traversal phase of `dustCleanupActive`. -/
def dustCleanupActiveTraversal (s : Ledger) (env : Env) (dustLimit : ℕ) : Exec Ledger := do
  let (funds, s, checkpoint) ← s.funds.swapDust s s.dustCleanupCheckpoint dustLimit .active
    dustCleanupActiveFilter (env.gasLow 0) env.fuel
  return { s with funds := funds, dustCleanupCheckpoint := checkpoint }

/-- `dustCleanupActive` -/
def dustCleanupActive (s : Ledger) (env : Env) (dustLimit : ℕ) : Exec Ledger := do
  s.onlyOwner env
  require (s.isGlobalOpInProgress = false)
    "contract is temporarily paused as checkpoint is reset"
  let s ← s.computeOneUserReward ownerUserId
  let s ← s.dustCleanupActiveTraversal env dustLimit
  -- move funds around
  s.useWaitingToReplaceUnstaked

end Ledger

end Delegation
