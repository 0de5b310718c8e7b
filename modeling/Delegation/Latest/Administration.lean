import Delegation.Latest.System

/-!
# Administrative calls

What the endpoints do that neither move funds nor deal with rewards (`endpoint_administered`). They
change the nodes, or prepare nodes for a callback and send a call about them, or send a call without
a callback, or write a setting. What such a call leaves alone is then read off these cases.
-/

namespace Delegation

open Outcome

/-- The calls that neither move funds nor deal with rewards. -/
def Call.administrative : Call → Bool
  | .continueGlobalOperation | .modifyTotalDelegationCap _ | .setServiceFee _ | .claimRewards
  | .stake | .unStake _ | .unBond | .dustCleanupWaitingList _ | .dustCleanupActive _ => false
  | _ => true

/-- The loops of the endpoints that send a call with a callback: the nodes of the call become
pending, and their ids are gathered for the callback. -/
inductive NodeStore.Prepares (s : NodeStore) :
    CallbackKind → NodeStore → NodeIndexArrayVec → Prop
  | stake {blsKeys : List BLSKey} {r : NodeStore × NodeIndexArrayVec × List (BLSKey × BLSSignature)}
      (h : blsKeys.foldlM prepareStakeNode (s, .new, []) = .ok r) :
      Prepares s .auctionStake r.1 r.2.1
  | unstake {nodeIds : NodeIndexArrayVec} {nodes : NodeStore}
      (h : nodeIds.ids.foldlM prepareUnstakeNode s = .ok nodes) :
      Prepares s .auctionUnstake nodes nodeIds
  | unbond {blsKeys : List BLSKey} {r : NodeStore × NodeIndexArrayVec}
      (h : blsKeys.foldlM prepareUnbondNode (s, .new) = .ok r) :
      Prepares s .auctionUnbond r.1 r.2
  | unbondAll {r : NodeStore × NodeIndexArrayVec × List BLSKey}
      (h : (Contract.descendingIds s.numNodes).foldlM prepareUnbondIfPossible (s, .new, []) =
        .ok r) :
      Prepares s .auctionUnbond r.1 r.2.1

/-- EGLD that `stakeNodes` may send. -/
def Ledger.Unprotected (s : Ledger) (egld : ℕ) : Prop :=
  s.bootstrapMode = false ∧ s.globalOpCheckpoint = .none ∧
    ∃ unprotected, s.totalUnprotected = .ok unprotected ∧ egld ≤ unprotected

namespace Contract

variable {c c' : Contract} {env : Env} {call : Call} {issued : Option AsyncCall}

/-! ### The ways an endpoint ends -/

/-- An asynchronous call takes its EGLD along. -/
def sent (c : Contract) (egld : ℕ) : Contract :=
  { c with ledger := { c.ledger with balance := c.ledger.balance - egld } }

theorem sendAsync_eq_ok {recipient : Address} {request : Request} {egld : ℕ}
    {callback : Option Callback}
    (h : c.sendAsync recipient request egld callback = .ok (c', issued)) :
    egld ≤ c.ledger.balance ∧ c' = c.sent egld ∧
      issued = some ⟨recipient, request, egld, callback⟩ := by
  unfold sendAsync at h
  split_ifs at h with hle
  cases h
  exact ⟨hle, rfl, rfl⟩

theorem onLedger_eq_ok {r : Exec Ledger} (h : c.onLedger r = .ok (c', issued)) :
    issued = none ∧ ∃ ledger, r = .ok ledger ∧ c' = { c with ledger := ledger } := by
  obtain ⟨ledger, hr, h⟩ := bind_eq_ok.mp h
  cases h
  exact ⟨rfl, ledger, hr, rfl⟩

theorem onLedgerFst_eq_ok {α : Type} {r : Exec (Ledger × α)}
    (h : c.onLedgerFst r = .ok (c', issued)) :
    issued = none ∧ ∃ ledger a, r = .ok (ledger, a) ∧ c' = { c with ledger := ledger } := by
  obtain ⟨hissued, ledger, hr, hc'⟩ := onLedger_eq_ok h
  cases r with
  | error e => cases hr
  | ok p =>
    cases hr
    exact ⟨hissued, p.1, p.2, rfl, hc'⟩

theorem onNodes_eq_ok {r : Exec NodeStore} (h : c.onNodes env r = .ok (c', issued)) :
    env.caller = c.ledger.owner ∧ issued = none ∧
      ∃ nodes, r = .ok nodes ∧ c' = { c with nodes := nodes } := by
  obtain ⟨_, howner, h⟩ := bind_eq_ok.mp h
  obtain ⟨nodes, hnodes, h⟩ := bind_eq_ok.mp h
  cases h
  exact ⟨require_eq_ok.mp howner, rfl, nodes, hnodes, rfl⟩

theorem onSettings_eq_ok {ledger : Ledger} (h : c.onSettings env ledger = .ok (c', issued)) :
    env.caller = c.ledger.owner ∧ issued = none ∧ c' = { c with ledger := ledger } := by
  obtain ⟨_, howner, h⟩ := bind_eq_ok.mp h
  cases h
  exact ⟨require_eq_ok.mp howner, rfl, rfl⟩

/-! ### The cases -/

/-- What an administrative call does, when its payment has arrived. -/
inductive Administered (c : Contract) (env : Env) :
    Call → Contract → Option AsyncCall → Prop
  | nodesAdded {blsKeysSignatures : List (BLSKey × BLSSignature)} {nodes : NodeStore}
      (howner : env.caller = c.ledger.owner)
      (h : c.nodes.addNodes blsKeysSignatures = .ok nodes) :
      Administered c env (.addNodes blsKeysSignatures) { c with nodes := nodes } none
  | nodesRemoved {blsKeys : List BLSKey} {nodes : NodeStore}
      (howner : env.caller = c.ledger.owner) (h : c.nodes.removeNodes blsKeys = .ok nodes) :
      Administered c env (.removeNodes blsKeys) { c with nodes := nodes } none
  | periodForced {blsKeys : List BLSKey} {nodes : NodeStore}
      (howner : env.caller = c.ledger.owner)
      (h : blsKeys.foldlM NodeStore.forceUnbondPeriod c.nodes = .ok nodes) :
      Administered c env (.forceNodeUnBondPeriod blsKeys) { c with nodes := nodes } none
  | nothingToUnbond {nodes : NodeStore} {nodeIds : NodeIndexArrayVec}
      (howner : env.caller = c.ledger.owner)
      (hprepares : c.nodes.Prepares .auctionUnbond nodes nodeIds) (hnil : nodeIds.ids = []) :
      Administered c env .unBondAllPossibleNodes { c with nodes := nodes } none
  | prepared {call : Call} {request : Request} {egld : ℕ} {callback : Callback}
      {nodes : NodeStore} (howner : env.caller = c.ledger.owner)
      (hprepares : c.nodes.Prepares callback.kind nodes callback.nodeIds)
      (hegld : egld = 0 ∨ c.ledger.Unprotected egld) (hle : egld ≤ c.ledger.balance) :
      Administered c env call ({ c with nodes := nodes }.sent egld)
        (some ⟨c.ledger.auctionAddr, request, egld, some callback⟩)
  | requested {call : Call} {recipient : Address} {request : Request} {egld : ℕ}
      (hegld : egld ≤ env.payment) :
      Administered c env call (c.sent egld) (some ⟨recipient, request, egld, none⟩)
  | settingWritten {call : Call} {ledger : Ledger} (howner : env.caller = c.ledger.owner)
      (hframe : ledger = { c.ledger with
        nBlocksBeforeUnbond := ledger.nBlocksBeforeUnbond
        minStake := ledger.minStake
        featureFlag := ledger.featureFlag
        paused := ledger.paused })
      (hflag : ledger.featureFlag = c.ledger.featureFlag ∨
        ∃ featureName value, call = .setFeatureFlag featureName value) :
      Administered c env call { c with ledger := ledger } none
  | addressesUpdated {addresses : List Address} :
      Administered c env (.updateUserAddress addresses)
        { c with ledger := (c.ledger.updateUserAddress addresses).1 } none

theorem administered_of_requested {recipient : Address} {request : Request} {egld : ℕ}
    (hegld : egld ≤ env.payment)
    (h : c.sendAsync recipient request egld none = .ok (c', issued)) :
    Administered c env call c' issued := by
  obtain ⟨-, rfl, rfl⟩ := sendAsync_eq_ok h
  exact .requested hegld

theorem administered_of_prepared {request : Request} {egld : ℕ} {callback : Callback}
    {nodes : NodeStore}
    (h : { c with nodes := nodes }.callAuction request egld (some callback) = .ok (c', issued))
    (howner : env.caller = c.ledger.owner)
    (hprepares : c.nodes.Prepares callback.kind nodes callback.nodeIds)
    (hegld : egld = 0 ∨ c.ledger.Unprotected egld) :
    Administered c env call c' issued := by
  obtain ⟨hle, rfl, rfl⟩ := sendAsync_eq_ok h
  exact .prepared howner hprepares hegld hle

/-- `stakeNodes` sends the amount that it was asked to. -/
theorem stakeNodes_eq_ok {amountToStake : ℕ} {blsKeys : List BLSKey}
    (h : c.stakeNodes env amountToStake blsKeys = .ok (c', issued)) :
    env.caller = c.ledger.owner ∧ c.ledger.Unprotected amountToStake ∧
      ∃ request callback nodes, c.nodes.Prepares callback.kind nodes callback.nodeIds ∧
        { c with nodes := nodes }.callAuction request amountToStake (some callback) =
          .ok (c', issued) := by
  obtain ⟨_, howner, h⟩ := bind_eq_ok.mp h
  obtain ⟨_, hboot, h⟩ := bind_eq_ok.mp h
  obtain ⟨_, hbusy, h⟩ := bind_eq_ok.mp h
  obtain ⟨unprotected, hunp, h⟩ := bind_eq_ok.mp h
  obtain ⟨_, hle, h⟩ := bind_eq_ok.mp h
  obtain ⟨_, -, h⟩ := bind_eq_ok.mp h
  obtain ⟨r, hr, h⟩ := bind_eq_ok.mp h
  have hidle : c.ledger.globalOpCheckpoint = .none := by
    simpa [Ledger.isGlobalOpInProgress] using require_eq_ok.mp hbusy
  exact ⟨require_eq_ok.mp howner, ⟨require_eq_ok.mp hboot, hidle, unprotected, hunp,
    require_eq_ok.mp hle⟩, _, ⟨.auctionStake, r.2.1⟩, r.1, .stake hr, h⟩

theorem administered_of_unstakeNodesWith {unstakeTokens : Bool} {blsKeys : List BLSKey}
    (howner : env.caller = c.ledger.owner)
    (h : c.unstakeNodesWith unstakeTokens blsKeys = .ok (c', issued)) :
    Administered c env call c' issued := by
  obtain ⟨_, -, h⟩ := bind_eq_ok.mp h
  obtain ⟨nodeIds, -, h⟩ := bind_eq_ok.mp h
  obtain ⟨nodes, hnodes, h⟩ := bind_eq_ok.mp h
  exact administered_of_prepared h howner (.unstake hnodes) (.inl rfl)

theorem administered_of_unBondNodes {blsKeys : List BLSKey}
    (h : c.unBondNodes env blsKeys = .ok (c', issued)) : Administered c env call c' issued := by
  obtain ⟨_, howner, h⟩ := bind_eq_ok.mp h
  obtain ⟨_, -, h⟩ := bind_eq_ok.mp h
  obtain ⟨_, -, h⟩ := bind_eq_ok.mp h
  obtain ⟨r, hr, h⟩ := bind_eq_ok.mp h
  exact administered_of_prepared h (require_eq_ok.mp howner) (.unbond hr) (.inl rfl)

theorem administered_of_unBondAllPossibleNodes
    (h : c.unBondAllPossibleNodes env = .ok (c', issued)) :
    Administered c env .unBondAllPossibleNodes c' issued := by
  obtain ⟨_, howner, h⟩ := bind_eq_ok.mp h
  obtain ⟨_, -, h⟩ := bind_eq_ok.mp h
  obtain ⟨r, hr, h⟩ := bind_eq_ok.mp h
  have howner := require_eq_ok.mp howner
  simp only at h
  split_ifs at h with hnil
  · cases h
    exact .nothingToUnbond howner (.unbondAll hr) hnil
  · exact administered_of_prepared h howner (.unbondAll hr) (.inl rfl)

/-- **Every administrative call** is one of the cases. -/
theorem endpoint_administered (hcall : call.administrative = true)
    (h : c.endpoint env call = .ok (c', issued)) : Administered c env call c' issued := by
  cases call with
  | addNodes =>
    obtain ⟨howner, rfl, nodes, hnodes, rfl⟩ := onNodes_eq_ok h
    exact .nodesAdded howner hnodes
  | removeNodes =>
    obtain ⟨howner, rfl, nodes, hnodes, rfl⟩ := onNodes_eq_ok h
    exact .nodesRemoved howner hnodes
  | updateUserAddress =>
    obtain ⟨rfl, _, hledger, rfl⟩ := onLedger_eq_ok h
    cases hledger
    exact .addressesUpdated
  | stakeNodes =>
    obtain ⟨howner, hegld, _, _, _, hprepares, h⟩ := stakeNodes_eq_ok h
    exact administered_of_prepared h howner hprepares (.inr hegld)
  | unStakeNodes | unStakeNodesAndTokens =>
    obtain ⟨_, howner, h⟩ := bind_eq_ok.mp h
    exact administered_of_unstakeNodesWith (require_eq_ok.mp howner) h
  | forceNodeUnBondPeriod =>
    obtain ⟨_, howner, h⟩ := bind_eq_ok.mp h
    obtain ⟨nodes, hnodes, h⟩ := bind_eq_ok.mp h
    cases h
    exact .periodForced (require_eq_ok.mp howner) hnodes
  | unBondNodes => exact administered_of_unBondNodes h
  | unBondAllPossibleNodes => exact administered_of_unBondAllPossibleNodes h
  | claimUnusedFunds =>
    obtain ⟨_, -, h⟩ := bind_eq_ok.mp h
    obtain ⟨_, -, h⟩ := bind_eq_ok.mp h
    exact administered_of_requested (Nat.zero_le _) h
  | unJailNodes =>
    obtain ⟨_, -, h⟩ := bind_eq_ok.mp h
    obtain ⟨_, -, h⟩ := bind_eq_ok.mp h
    exact administered_of_requested le_rfl h
  | dnsRegister =>
    obtain ⟨_, -, h⟩ := bind_eq_ok.mp h
    exact administered_of_requested le_rfl h
  | unStakeTokens | unBondTokens => exact administered_of_requested (Nat.zero_le _) h
  | setNumBlocksBeforeUnBond | setMinimumStake | pause | unpause =>
    obtain ⟨howner, rfl, rfl⟩ := onSettings_eq_ok h
    exact .settingWritten howner rfl (.inl rfl)
  | setFeatureFlag featureName value =>
    obtain ⟨howner, rfl, rfl⟩ := onSettings_eq_ok h
    exact .settingWritten howner rfl (.inr ⟨featureName, value, rfl⟩)
  | _ => cases hcall

/-- Every other call changes the ledger only. -/
theorem endpoint_onLedger (hcall : call.administrative = false)
    (h : c.endpoint env call = .ok (c', issued)) : c'.nodes = c.nodes ∧ issued = none := by
  cases call with
  | claimRewards | stake | unStake | dustCleanupWaitingList | dustCleanupActive =>
    obtain ⟨rfl, _, -, rfl⟩ := onLedger_eq_ok h
    exact ⟨rfl, rfl⟩
  | continueGlobalOperation | modifyTotalDelegationCap | setServiceFee | unBond =>
    obtain ⟨rfl, _, _, -, rfl⟩ := onLedgerFst_eq_ok h
    exact ⟨rfl, rfl⟩
  | _ => cases hcall

end Contract

end Delegation
