import Delegation.Latest.UserStake
import Delegation.Node.Registry

/-!
# Node operations

The model of `latest/src/node_activation.rs`. Every operation on nodes ends with an asynchronous
call to the auction contract (`AsyncCall`), which ends the transaction as well; the answer comes
back in a later transaction, as a callback that carries the ids of the nodes of the call.
-/

namespace Delegation

open Outcome

/-- What another contract is asked to do. All but the last are endpoints of the auction contract. -/
inductive Request
  | stake (numNodes : ℕ) (blsKeysSignatures : List (BLSKey × BLSSignature))
  | unStake (blsKeys : List BLSKey)
  | unStakeNodes (blsKeys : List BLSKey)
  | unBondNodes (blsKeys : List BLSKey)
  | unStakeTokens (amount : ℕ)
  | unBondTokens (amount : ℕ)
  | claim
  | unJail (blsKeys : List BLSKey)
  | register (name : String)
  deriving DecidableEq, Repr

/-- A callback with its argument. -/
structure Callback where
  kind : CallbackKind
  nodeIds : NodeIndexArrayVec

/-- An asynchronous call with the EGLD attached to it. -/
structure AsyncCall where
  recipient : Address
  request : Request
  egld : ℕ
  callback : Option Callback

/-- `ManagedAsyncCallResult` -/
inductive CallResult
  | ok (nodeStatusArgs : List (BLSKey × UInt32))
  | err (errMsg : String)
  deriving DecidableEq, Repr

namespace NodeStore

/-! ### The callbacks -/

/-- The shape of the three callbacks: the nodes of the call are split by the answer, and each part
is finished in its own way. -/
def finishCall (callbackOk callbackFail : NodeStore → List ℕ → Exec NodeStore) (s : NodeStore)
    (nodeIds : NodeIndexArrayVec) (callResult : CallResult) : Exec NodeStore :=
  match callResult with
  | .ok nodeStatusArgs => do
      let (nodeIdsOk, nodeIdsFail) ← s.splitNodeIdsByErr nodeIds nodeStatusArgs
      let s ← callbackOk s nodeIdsOk.ids
      callbackFail s nodeIdsFail.ids
  | .err _ => callbackFail s nodeIds.ids

/-- `auction_stake_callback` -/
def auctionStakeCallback (s : NodeStore) (nodeIds : NodeIndexArrayVec) (callResult : CallResult) :
    Exec NodeStore :=
  s.finishCall (fun s ids => .ok (s.setNodeStates ids .active))
    (fun s ids => .ok (s.setNodeStates ids .inactive)) nodeIds callResult

/-- `auction_unstake_callback` -/
def auctionUnstakeCallback (s : NodeStore) (blockNonce : UInt64) (nodeIds : NodeIndexArrayVec)
    (callResult : CallResult) : Exec NodeStore :=
  s.finishCall (fun s ids => .ok (s.setNodeStates ids (.unBondPeriod blockNonce)))
    (fun s ids => .ok (s.setNodeStates ids .active)) nodeIds callResult

/-- The loop body of `auction_unbond_callback_fail`. -/
def revertUnbond (s : NodeStore) (nodeId : ℕ) : Exec NodeStore :=
  match s.nodeState nodeId with
  | .pendingUnBond unbondStarted => .ok (s.setNodeState nodeId (.unBondPeriod unbondStarted))
  | _ => .error (.scPanic "node not pending unbond")

/-- `auction_unbond_callback` -/
def auctionUnbondCallback (s : NodeStore) (nodeIds : NodeIndexArrayVec) (callResult : CallResult) :
    Exec NodeStore :=
  s.finishCall (fun s ids => .ok (s.setNodeStates ids .inactive))
    (fun s ids => ids.foldlM revertUnbond s) nodeIds callResult

/-- The callback of a call, run at `blockNonce`. -/
def runCallback (s : NodeStore) (blockNonce : UInt64) (callback : Callback)
    (callResult : CallResult) : Exec NodeStore :=
  match callback.kind with
  | .auctionStake => s.auctionStakeCallback callback.nodeIds callResult
  | .auctionUnstake => s.auctionUnstakeCallback blockNonce callback.nodeIds callResult
  | .auctionUnbond => s.auctionUnbondCallback callback.nodeIds callResult

/-! ### The loops of the endpoints -/

/-- The loop body of `stake_nodes`. -/
def prepareStakeNode (c : NodeStore × NodeIndexArrayVec × List (BLSKey × BLSSignature))
    (blsKey : BLSKey) : Exec (NodeStore × NodeIndexArrayVec × List (BLSKey × BLSSignature)) := do
  let (s, nodeIds, blsKeysSignatures) := c
  let nodeId := s.nodeBlsToId blsKey
  require (nodeId ≠ 0) "unknown node provided"
  require (s.nodeState nodeId = .inactive) "node must be inactive"
  let nodeIds ← nodeIds.push nodeId
  return (s.setNodeState nodeId .pendingActivation, nodeIds,
    blsKeysSignatures ++ [(blsKey, s.nodeSignature nodeId)])

/-- The loop body of `unstake_nodes`. -/
def pushNodeId (s : NodeStore) (nodeIds : NodeIndexArrayVec) (blsKey : BLSKey) :
    Exec NodeIndexArrayVec := do
  let nodeId := s.nodeBlsToId blsKey
  require (nodeId ≠ 0) "unknown node provided"
  nodeIds.push nodeId

/-- The loop body of `perform_unstake_nodes`. -/
def prepareUnstakeNode (s : NodeStore) (nodeId : ℕ) : Exec NodeStore := do
  require (s.nodeState nodeId = .active) "node not active"
  return s.setNodeState nodeId .pendingDeactivation

/-- `prepare_node_for_unbond_if_possible` -/
def prepareNodeForUnbondIfPossible (s : NodeStore) (nodeId : ℕ) : NodeStore × Bool :=
  match s.nodeState nodeId with
  | .unBondPeriod started => (s.setNodeState nodeId (.pendingUnBond started), true)
  | _ => (s, false)

/-- The loop body of `unbond_specific_nodes_endpoint`. -/
def prepareUnbondNode (c : NodeStore × NodeIndexArrayVec) (blsKey : BLSKey) :
    Exec (NodeStore × NodeIndexArrayVec) := do
  let (s, nodeIds) := c
  let nodeId := s.nodeBlsToId blsKey
  require (nodeId ≠ 0) "unknown node provided"
  let (s, possible) := s.prepareNodeForUnbondIfPossible nodeId
  require possible "node cannot be unbonded"
  let nodeIds ← nodeIds.push nodeId
  return (s, nodeIds)

/-- The loop body of `unbond_all_possible_nodes`. -/
def prepareUnbondIfPossible (c : NodeStore × NodeIndexArrayVec × List BLSKey) (nodeId : ℕ) :
    Exec (NodeStore × NodeIndexArrayVec × List BLSKey) :=
  let (s, nodeIds, blsKeys) := c
  let (s, possible) := s.prepareNodeForUnbondIfPossible nodeId
  if possible then do
    let nodeIds ← nodeIds.push nodeId
    return (s, nodeIds, blsKeys ++ [s.nodeIdToBls nodeId])
  else .ok (s, nodeIds, blsKeys)

/-- The loop body of `force_node_unbond_period`. -/
def forceUnbondPeriod (s : NodeStore) (blsKey : BLSKey) : Exec NodeStore := do
  let nodeId := s.nodeBlsToId blsKey
  require (nodeId ≠ 0) "unknown node provided"
  return s.setNodeState nodeId (.unBondPeriod 0)

/-- The loop body of `unjail_nodes`, which only validates. -/
def checkUnjailNode (s : NodeStore) (_ : Unit) (blsKey : BLSKey) : Exec Unit := do
  let nodeId := s.nodeBlsToId blsKey
  require (nodeId ≠ 0) "unknown node provided"
  require (s.nodeState nodeId = .active) "node must be active"

end NodeStore

namespace Contract

/-! ### The endpoints -/

/-- The check that all operations on nodes begin with. -/
def requireNoGlobalOp (c : Contract) : Exec Unit :=
  require (c.ledger.isGlobalOpInProgress = false)
    "node operations are temporarily paused as checkpoint is reset"

/-- An asynchronous call with EGLD attached, which leaves the contract at once. -/
def sendAsync (c : Contract) (recipient : Address) (request : Request) (egld : ℕ)
    (callback : Option Callback) : Exec (Contract × Option AsyncCall) :=
  if egld ≤ c.ledger.balance then
    .ok ({ c with ledger := { c.ledger with balance := c.ledger.balance - egld } },
      some { recipient, request, egld, callback })
  else .error .insufficientFunds

/-- A call to the auction contract. -/
def callAuction (c : Contract) (request : Request) (egld : ℕ) (callback : Option Callback) :
    Exec (Contract × Option AsyncCall) :=
  c.sendAsync c.ledger.auctionAddr request egld callback

/-- `stakeNodes` -/
def stakeNodes (c : Contract) (env : Env) (amountToStake : ℕ) (blsKeys : List BLSKey) :
    Exec (Contract × Option AsyncCall) := do
  c.ledger.onlyOwner env
  require (c.ledger.bootstrapMode = false) "cannot stake nodes in bootstrap mode"
  c.requireNoGlobalOp
  let unprotected ← c.ledger.totalUnprotected
  require (amountToStake ≤ unprotected) "not enough funds in contract to stake nodes"
  c.ledger.validateOwnerStakeShare
  let (nodes, nodeIds, blsKeysSignatures) ←
    blsKeys.foldlM NodeStore.prepareStakeNode (c.nodes, .new, [])
  let c := { c with nodes := nodes }
  c.callAuction (.stake nodeIds.ids.length blsKeysSignatures) amountToStake
    (some ⟨.auctionStake, nodeIds⟩)

/-- `unstake_nodes` -/
def unstakeNodesWith (c : Contract) (unstakeTokens : Bool) (blsKeys : List BLSKey) :
    Exec (Contract × Option AsyncCall) := do
  c.requireNoGlobalOp
  let nodeIds ← blsKeys.foldlM c.nodes.pushNodeId .new
  -- convert node state to PendingDeactivation
  let nodes ← nodeIds.ids.foldlM NodeStore.prepareUnstakeNode c.nodes
  let c := { c with nodes := nodes }
  c.callAuction
    (if unstakeTokens then .unStake blsKeys else .unStakeNodes blsKeys) 0
    (some ⟨.auctionUnstake, nodeIds⟩)

/-- `unStakeNodes` -/
def unStakeNodes (c : Contract) (env : Env) (blsKeys : List BLSKey) :
    Exec (Contract × Option AsyncCall) := do
  c.ledger.onlyOwner env
  c.unstakeNodesWith false blsKeys

/-- `unStakeNodesAndTokens` -/
def unStakeNodesAndTokens (c : Contract) (env : Env) (blsKeys : List BLSKey) :
    Exec (Contract × Option AsyncCall) := do
  c.ledger.onlyOwner env
  c.unstakeNodesWith true blsKeys

/-- `forceNodeUnBondPeriod` -/
def forceNodeUnBondPeriod (c : Contract) (env : Env) (blsKeys : List BLSKey) :
    Exec (Contract × Option AsyncCall) := do
  c.ledger.onlyOwner env
  let nodes ← blsKeys.foldlM NodeStore.forceUnbondPeriod c.nodes
  return ({ c with nodes := nodes }, none)

/-- `unBondNodes` -/
def unBondNodes (c : Contract) (env : Env) (blsKeys : List BLSKey) :
    Exec (Contract × Option AsyncCall) := do
  c.ledger.onlyOwner env
  c.requireNoGlobalOp
  require (blsKeys ≠ []) "no BLS keys provided"
  let (nodes, nodeIds) ← blsKeys.foldlM NodeStore.prepareUnbondNode (c.nodes, .new)
  let c := { c with nodes := nodes }
  c.callAuction (.unBondNodes blsKeys) 0 (some ⟨.auctionUnbond, nodeIds⟩)

/-- The ids that `unbond_all_possible_nodes` goes through. -/
def descendingIds : ℕ → List ℕ
  | 0 => []
  | nodeId + 1 => (nodeId + 1) :: descendingIds nodeId

/-- `unBondAllPossibleNodes` -/
def unBondAllPossibleNodes (c : Contract) (env : Env) : Exec (Contract × Option AsyncCall) := do
  c.ledger.onlyOwner env
  c.requireNoGlobalOp
  let (nodes, nodeIds, blsKeys) ← (descendingIds c.nodes.numNodes).foldlM
    NodeStore.prepareUnbondIfPossible (c.nodes, .new, [])
  if nodeIds.ids = [] then return ({ c with nodes := nodes }, none)
  else
    let c := { c with nodes := nodes }
    c.callAuction (.unBondNodes blsKeys) 0
      (some ⟨.auctionUnbond, nodeIds⟩)

/-- `claimUnusedFunds` -/
def claimUnusedFunds (c : Contract) (env : Env) : Exec (Contract × Option AsyncCall) := do
  c.ledger.onlyOwner env
  c.requireNoGlobalOp
  c.callAuction .claim 0 none

/-- `unJailNodes` -/
def unJailNodes (c : Contract) (env : Env) (blsKeys : List BLSKey) :
    Exec (Contract × Option AsyncCall) := do
  c.ledger.onlyOwner env
  blsKeys.foldlM c.nodes.checkUnjailNode ()
  c.callAuction (.unJail blsKeys) env.payment none

/-- `unStakeTokens` -/
def unStakeTokens (c : Contract) (amount : ℕ) : Exec (Contract × Option AsyncCall) :=
  c.callAuction (.unStakeTokens amount) 0 none

/-- `unBondTokens` -/
def unBondTokens (c : Contract) (amount : ℕ) : Exec (Contract × Option AsyncCall) :=
  c.callAuction (.unBondTokens amount) 0 none

end Contract

end Delegation
