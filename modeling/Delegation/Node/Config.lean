import Delegation.Basic

/-!
# The node registry

The model of `node-storage/src/node_config.rs` and of the types it stores: the registered nodes by
id, their BLS keys and signatures, and the state of each node.

Lists of node ids that cross a call live in an `ArrayVec` of capacity `MAX_NODES_PER_OPERATION`;
`NodeIndexArrayVec` carries that bound, so only `push` can fail.
-/

namespace Delegation

open Outcome

/-- BLS keys have 96 bytes. -/
abbrev BLSKey := BitVec 768

/-- BLS signatures have 48 bytes. -/
abbrev BLSSignature := BitVec 384

/-- Status of a node. -/
inductive NodeState
  /-- Registered in delegation, but not in the auction contract. -/
  | inactive
  /-- Stake call to auction sent, but callback not yet received. -/
  | pendingActivation
  /-- No longer used. -/
  | activationFailed
  /-- Registered in the auction contract, active and producing rewards. -/
  | active
  /-- UnStake call to auction sent, but callback not yet received. -/
  | pendingDeactivation
  /-- Same as active, but no rewards are coming in. -/
  | unBondPeriod (started : UInt64)
  /-- UnBond call to auction sent, but callback not yet received. -/
  | pendingUnBond (unbondStarted : UInt64)
  /-- Completely removed from the delegation contract. -/
  | removed
  deriving DecidableEq, Repr

/-- `MAX_NODES_PER_OPERATION` -/
def maxNodesPerOperation : ℕ := 100

/-- `NodeIndexArrayVec`: at most `MAX_NODES_PER_OPERATION` node ids. -/
structure NodeIndexArrayVec where
  ids : List ℕ
  length_le : ids.length ≤ maxNodesPerOperation

namespace NodeIndexArrayVec

/-- `ArrayVec::new` -/
def new : NodeIndexArrayVec := ⟨[], Nat.zero_le _⟩

/-- `ArrayVec::push` -/
def push (v : NodeIndexArrayVec) (nodeId : ℕ) : Exec NodeIndexArrayVec :=
  if h : v.ids.length < maxNodesPerOperation then
    .ok ⟨v.ids ++ [nodeId], by simpa using h⟩
  else .error .capacity

/-- `ArrayVec::swap_remove`: the last element takes the place of the removed one. -/
def swapRemove (v : NodeIndexArrayVec) (pos : ℕ) : NodeIndexArrayVec :=
  ⟨(v.ids.set pos (v.ids.getLast?.getD 0)).dropLast, by
    have := v.length_le
    simp only [List.length_dropLast, List.length_set]
    omega⟩

end NodeIndexArrayVec

/-- The storage of the node registry. -/
structure NodeStore where
  numNodes : ℕ
  nodeBlsToId : BLSKey → ℕ
  nodeIdToBls : ℕ → BLSKey
  nodeSignature : ℕ → BLSSignature
  nodeState : ℕ → NodeState

namespace NodeStore

/-- The registry before the first call. Ids start from 1, so 0 means that a key is unknown. -/
def empty : NodeStore where
  numNodes := 0
  nodeBlsToId := fun _ => 0
  nodeIdToBls := fun _ => 0
  nodeSignature := fun _ => 0
  nodeState := fun _ => .inactive

/-- `set_node_state` -/
@[simps]
def setNodeState (s : NodeStore) (nodeId : ℕ) (nodeState : NodeState) : NodeStore :=
  { s with nodeState := Function.update s.nodeState nodeId nodeState }

/-- The `for` loops that set the state of every listed node. -/
def setNodeStates (s : NodeStore) (nodeIds : List ℕ) (nodeState : NodeState) : NodeStore :=
  nodeIds.foldl (fun s nodeId => s.setNodeState nodeId nodeState) s

/-- The loop body of `add_nodes`; `numNodes` is a local variable until the loop ends. -/
def addNode (c : NodeStore × ℕ) (blsSigPair : BLSKey × BLSSignature) : Exec (NodeStore × ℕ) :=
  let (s, numNodes) := c
  let (blsKey, blsSig) := blsSigPair
  let nodeId := s.nodeBlsToId blsKey
  if nodeId = 0 then
    let nodeId := numNodes + 1
    .ok ({ s with
      nodeBlsToId := Function.update s.nodeBlsToId blsKey nodeId
      nodeIdToBls := Function.update s.nodeIdToBls nodeId blsKey
      nodeState := Function.update s.nodeState nodeId .inactive
      nodeSignature := Function.update s.nodeSignature nodeId blsSig }, nodeId)
  else if s.nodeState nodeId = .removed then
    .ok ({ s with
      nodeState := Function.update s.nodeState nodeId .inactive
      nodeSignature := Function.update s.nodeSignature nodeId blsSig }, numNodes)
  else .error (.scPanic "node already registered")

/-- `addNodes` -/
def addNodes (s : NodeStore) (blsKeysSignatures : List (BLSKey × BLSSignature)) :
    Exec NodeStore := do
  let (s, numNodes) ← blsKeysSignatures.foldlM addNode (s, s.numNodes)
  return { s with numNodes := numNodes }

/-- The loop body of `remove_nodes`. -/
def removeNode (s : NodeStore) (blsKey : BLSKey) : Exec NodeStore := do
  let nodeId := s.nodeBlsToId blsKey
  require (nodeId ≠ 0) "node not registered"
  require (s.nodeState nodeId = .inactive) "only inactive nodes can be removed"
  return s.setNodeState nodeId .removed

/-- `removeNodes` -/
def removeNodes (s : NodeStore) (blsKeys : List BLSKey) : Exec NodeStore :=
  blsKeys.foldlM removeNode s

/-- The loop body of `split_node_ids_by_err`, on the ids not yet reported and the failed ones. -/
def splitOneByErr (s : NodeStore) (c : NodeIndexArrayVec × NodeIndexArrayVec)
    (arg : BLSKey × UInt32) : Exec (NodeIndexArrayVec × NodeIndexArrayVec) :=
  let (nodeIds, failedNodeIds) := c
  let (blsKey, status) := arg
  if status = 0 then .ok c
  else
    let nodeId := s.nodeBlsToId blsKey
    -- move node from ok nodes to failed ones
    match nodeIds.ids.findIdx? (· == nodeId) with
    | some pos => do
        let failedNodeIds ← failedNodeIds.push nodeId
        return (nodeIds.swapRemove pos, failedNodeIds)
    | none => .ok c

/-- `split_node_ids_by_err` -/
def splitNodeIdsByErr (s : NodeStore) (nodeIds : NodeIndexArrayVec)
    (nodeStatusArgs : List (BLSKey × UInt32)) : Exec (NodeIndexArrayVec × NodeIndexArrayVec) :=
  nodeStatusArgs.foldlM s.splitOneByErr (nodeIds, .new)

end NodeStore

end Delegation
