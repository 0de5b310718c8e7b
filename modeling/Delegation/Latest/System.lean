import Delegation.Latest.NodeActivation
import Delegation.Latest.ResetCheckpoint
import Delegation.Latest.DustCleanup

/-!
# The contract in its environment

The endpoints of `DelegationFull` (`latest_full/src/lib.rs` and the modules it inherits), and the
steps of a run: a transaction of any caller, the answer to an asynchronous call that is in flight,
the arrival of validator rewards, and EGLD sent by somebody else. A transaction that panics is
rolled back and is no step.

Views change nothing and are not listed. Of the inherited third-party endpoints, `dnsRegister`
forwards its payment, and the others write a flag.

The comments of `modifyTotalDelegationCap` and `setServiceFee` rely on there being no rewards in
bootstrap mode; `Step.reward` has that as its guard.
-/

namespace Delegation

open Outcome

/-- The endpoints with their arguments. -/
inductive Call
  | addNodes (blsKeysSignatures : List (BLSKey × BLSSignature))
  | removeNodes (blsKeys : List BLSKey)
  | updateUserAddress (addresses : List Address)
  | stakeNodes (amountToStake : ℕ) (blsKeys : List BLSKey)
  | unStakeNodes (blsKeys : List BLSKey)
  | unStakeNodesAndTokens (blsKeys : List BLSKey)
  | forceNodeUnBondPeriod (blsKeys : List BLSKey)
  | unBondNodes (blsKeys : List BLSKey)
  | unBondAllPossibleNodes
  | claimUnusedFunds
  | unJailNodes (blsKeys : List BLSKey)
  | unStakeTokens (amount : ℕ)
  | unBondTokens (amount : ℕ)
  | setNumBlocksBeforeUnBond (nBlocksBeforeUnbond : UInt64)
  | setMinimumStake (minimumStake : ℕ)
  | continueGlobalOperation
  | modifyTotalDelegationCap (newTotalCap : ℕ)
  | setServiceFee (serviceFeePer10000 : ℕ)
  | claimRewards
  | stake
  | unStake (amount : ℕ)
  | unBond
  | dustCleanupWaitingList (dustLimit : ℕ)
  | dustCleanupActive (dustLimit : ℕ)
  | dnsRegister (dnsAddress : Address) (name : String)
  | setFeatureFlag (featureName : String) (value : Bool)
  | pause
  | unpause
  deriving DecidableEq, Repr

/-- `#[payable("EGLD")]` -/
def Call.payable : Call → Bool
  | .stake | .unJailNodes _ | .dnsRegister _ _ => true
  | _ => false

namespace Contract

/-- EGLD that arrives with a call or without one. -/
@[simps]
def credit (c : Contract) (egld : ℕ) : Contract :=
  { c with ledger := { c.ledger with balance := c.ledger.balance + egld } }

/-- Validator rewards that arrive. -/
@[simps]
def arriveRewards (c : Contract) (amount : ℕ) : Contract :=
  { c with
    ledger := { c.ledger with
      balance := c.ledger.balance + amount
      cumulatedRewards := c.ledger.cumulatedRewards + amount } }

/-- An endpoint that only changes the ledger. -/
def onLedger (c : Contract) (r : Exec Ledger) : Exec (Contract × Option AsyncCall) := do
  let ledger ← r
  return ({ c with ledger := ledger }, none)

/-- An endpoint that changes the ledger and returns a value. -/
def onLedgerFst {α : Type} (c : Contract) (r : Exec (Ledger × α)) :
    Exec (Contract × Option AsyncCall) :=
  c.onLedger (Except.map Prod.fst r)

/-- An endpoint of the node registry, for the owner only. -/
def onNodes (c : Contract) (env : Env) (r : Exec NodeStore) :
    Exec (Contract × Option AsyncCall) := do
  c.ledger.onlyOwner env
  let nodes ← r
  return ({ c with nodes := nodes }, none)

/-- An endpoint that only writes a setting, for the owner only. -/
def onSettings (c : Contract) (env : Env) (ledger : Ledger) :
    Exec (Contract × Option AsyncCall) := do
  c.ledger.onlyOwner env
  return ({ c with ledger := ledger }, none)

/-- The endpoint that a call runs. -/
def endpoint (c : Contract) (env : Env) : Call → Exec (Contract × Option AsyncCall)
  | .addNodes blsKeysSignatures => c.onNodes env (c.nodes.addNodes blsKeysSignatures)
  | .removeNodes blsKeys => c.onNodes env (c.nodes.removeNodes blsKeys)
  | .updateUserAddress addresses => c.onLedger (.ok (c.ledger.updateUserAddress addresses).1)
  | .stakeNodes amountToStake blsKeys => c.stakeNodes env amountToStake blsKeys
  | .unStakeNodes blsKeys => c.unStakeNodes env blsKeys
  | .unStakeNodesAndTokens blsKeys => c.unStakeNodesAndTokens env blsKeys
  | .forceNodeUnBondPeriod blsKeys => c.forceNodeUnBondPeriod env blsKeys
  | .unBondNodes blsKeys => c.unBondNodes env blsKeys
  | .unBondAllPossibleNodes => c.unBondAllPossibleNodes env
  | .claimUnusedFunds => c.claimUnusedFunds env
  | .unJailNodes blsKeys => c.unJailNodes env blsKeys
  | .unStakeTokens amount => c.unStakeTokens amount
  | .unBondTokens amount => c.unBondTokens amount
  | .setNumBlocksBeforeUnBond nBlocksBeforeUnbond =>
      c.onSettings env { c.ledger with nBlocksBeforeUnbond := nBlocksBeforeUnbond }
  | .setMinimumStake minimumStake => c.onSettings env { c.ledger with minStake := minimumStake }
  | .continueGlobalOperation => c.onLedgerFst (c.ledger.continueGlobalOperationEndpoint env)
  | .modifyTotalDelegationCap newTotalCap =>
      c.onLedgerFst (c.ledger.modifyTotalDelegationCap env newTotalCap)
  | .setServiceFee serviceFeePer10000 =>
      c.onLedgerFst (c.ledger.setServiceFee env serviceFeePer10000)
  | .claimRewards => c.onLedger (c.ledger.claimRewards env)
  | .stake => c.onLedger (c.ledger.stake env)
  | .unStake amount => c.onLedger (c.ledger.unStake env amount)
  | .unBond => c.onLedgerFst (c.ledger.unBond env)
  | .dustCleanupWaitingList dustLimit =>
      c.onLedger (c.ledger.dustCleanupWaitingList env dustLimit)
  | .dustCleanupActive dustLimit => c.onLedger (c.ledger.dustCleanupActive env dustLimit)
  | .dnsRegister dnsAddress name => do
      c.ledger.onlyOwner env
      c.sendAsync dnsAddress (.register name) env.payment none
  | .setFeatureFlag featureName value =>
      c.onSettings env { c.ledger with
        featureFlag := Function.update c.ledger.featureFlag featureName (some value) }
  | .pause => c.onSettings env { c.ledger with paused := true }
  | .unpause => c.onSettings env { c.ledger with paused := false }

/-- A transaction: the payment arrives, then the endpoint runs. -/
def transaction (c : Contract) (env : Env) (call : Call) : Exec (Contract × Option AsyncCall) := do
  require (call.payable ∨ env.payment = 0) "function does not accept EGLD payment"
  (c.credit env.payment).endpoint env call

/-- The EGLD of a failed call comes back. -/
def returned (c : Contract) (call : AsyncCall) (result : CallResult) : Contract :=
  match result with
  | .ok _ => c
  | .err _ => c.credit call.egld

/-- The answer to an asynchronous call: the EGLD of a failed call comes back, then the callback
runs, if there is one. -/
def answer (c : Contract) (blockNonce : UInt64) (call : AsyncCall) (result : CallResult) :
    Exec Contract :=
  let c := c.returned call result
  match call.callback with
  | some callback => do
      let nodes ← c.nodes.runCallback blockNonce callback result
      return { c with nodes := nodes }
  | none => .ok c

end Contract

/-- The contract and the asynchronous calls that have not been answered. -/
structure World where
  contract : Contract
  inFlight : List AsyncCall

/-- What can happen in a run. -/
inductive Event
  | transaction (env : Env) (call : Call)
  | answer (i : ℕ) (blockNonce : UInt64) (result : CallResult)
  | reward (amount : ℕ)
  | receive (egld : ℕ)

/-- The steps of a run. The calls in flight are answered in any order. -/
inductive Step : World → Event → World → Prop
  | transaction {w : World} {env : Env} {call : Call} {c : Contract} {issued : Option AsyncCall}
      (h : w.contract.transaction env call = .ok (c, issued)) :
      Step w (.transaction env call) ⟨c, w.inFlight ++ issued.toList⟩
  | answer {w : World} {i : ℕ} {blockNonce : UInt64} {result : CallResult} {call : AsyncCall}
      {c : Contract} (hcall : w.inFlight[i]? = some call)
      (h : w.contract.answer blockNonce call result = .ok c) :
      Step w (.answer i blockNonce result) ⟨c, w.inFlight.eraseIdx i⟩
  | answerPanic {w : World} {i : ℕ} {blockNonce : UInt64} {result : CallResult} {call : AsyncCall}
      {e : Panic} (hcall : w.inFlight[i]? = some call)
      (h : w.contract.answer blockNonce call result = .error e) :
      Step w (.answer i blockNonce result)
        ⟨w.contract.returned call result, w.inFlight.eraseIdx i⟩
  | reward {w : World} {amount : ℕ} (h : w.contract.ledger.bootstrapMode = false) :
      Step w (.reward amount) { w with contract := w.contract.arriveRewards amount }
  | receive {w : World} {egld : ℕ} :
      Step w (.receive egld) { w with contract := w.contract.credit egld }

/-- The step of an event, as a function; `none` when the event cannot happen or panics. -/
def World.after (w : World) : Event → Option World
  | .transaction env call =>
      match w.contract.transaction env call with
      | .ok (c, issued) => some ⟨c, w.inFlight ++ issued.toList⟩
      | .error _ => none
  | .answer i blockNonce result =>
      match w.inFlight[i]? with
      | some call =>
          match w.contract.answer blockNonce call result with
          | .ok c => some ⟨c, w.inFlight.eraseIdx i⟩
          | .error _ => none
      | none => none
  | .reward amount =>
      if w.contract.ledger.bootstrapMode then none
      else some { w with contract := w.contract.arriveRewards amount }
  | .receive egld => some { w with contract := w.contract.credit egld }

theorem World.step_after {w w' : World} {e : Event} (h : w.after e = some w') : Step w e w' := by
  cases e with
  | transaction env call =>
    cases htx : w.contract.transaction env call with
    | error e => simp [after, htx] at h
    | ok r =>
      simp only [after, htx, Option.some.injEq] at h
      subst h
      exact .transaction htx
  | answer i blockNonce result =>
    cases hi : w.inFlight[i]? with
    | none => simp [after, hi] at h
    | some call =>
      cases hc : w.contract.answer blockNonce call result with
      | error e => simp [after, hi, hc] at h
      | ok c =>
        simp only [after, hi, hc, Option.some.injEq] at h
        subst h
        exact .answer hi hc
  | reward amount =>
    simp only [after] at h
    split_ifs at h with hb
    simp only [Option.some.injEq] at h
    subst h
    exact .reward (by simpa using hb)
  | receive egld =>
    simp only [after, Option.some.injEq] at h
    subst h
    exact .receive

/-- The states that `init` can leave. -/
inductive Initial : World → Prop
  | init {env : Env} {balance : ℕ} {auctionContractAddr : Address}
      {serviceFeePer10000 ownerMinStakeSharePer10000 : ℕ} {nBlocksBeforeUnbond : UInt64}
      {minimumStake totalDelegationCap : ℕ} {c : Contract}
      (h : Contract.init env balance auctionContractAddr serviceFeePer10000
        ownerMinStakeSharePer10000 nBlocksBeforeUnbond minimumStake totalDelegationCap = .ok c) :
      Initial ⟨c, []⟩

/-- The state after a deployment, when `init` accepts its arguments. -/
def World.deploy (owner : Address) (balance : ℕ) (auctionContractAddr : Address)
    (serviceFeePer10000 ownerMinStakeSharePer10000 : ℕ) (nBlocksBeforeUnbond : UInt64)
    (minimumStake totalDelegationCap : ℕ) : Option World :=
  match Contract.init (.plain owner 0 0) balance auctionContractAddr serviceFeePer10000
    ownerMinStakeSharePer10000 nBlocksBeforeUnbond minimumStake totalDelegationCap with
  | .ok c => some ⟨c, []⟩
  | .error _ => none

theorem World.initial_deploy {owner : Address} {balance : ℕ} {auctionContractAddr : Address}
    {serviceFeePer10000 ownerMinStakeSharePer10000 : ℕ} {nBlocksBeforeUnbond : UInt64}
    {minimumStake totalDelegationCap : ℕ} {w : World}
    (h : World.deploy owner balance auctionContractAddr serviceFeePer10000
      ownerMinStakeSharePer10000 nBlocksBeforeUnbond minimumStake totalDelegationCap = some w) :
    Initial w := by
  simp only [World.deploy] at h
  split at h
  · next c hc =>
    rw [← Option.some.inj h]
    exact .init hc
  · cases h

/-- The states of the runs from `init` whose steps are all allowed. -/
inductive Reachable (allowed : World → Event → Prop) : World → Prop
  | initial {w : World} (h : Initial w) : Reachable allowed w
  | step {w w' : World} {e : Event} (h : Reachable allowed w) (he : allowed w e)
      (hs : Step w e w') : Reachable allowed w'

/-- **Invariant rule** for runs. -/
theorem Reachable.invariant {allowed : World → Event → Prop} {I : World → Prop}
    (hinit : ∀ w, Initial w → I w)
    (hstep : ∀ w e w', I w → allowed w e → Step w e w' → I w') {w : World}
    (h : Reachable allowed w) : I w := by
  induction h with
  | initial h => exact hinit _ h
  | step _ he hs ih => exact hstep _ _ _ ih he hs

/-- Fewer steps reach fewer states. -/
theorem Reachable.mono {allowed allowed' : World → Event → Prop}
    (hle : ∀ w e, allowed w e → allowed' w e) {w : World} (h : Reachable allowed w) :
    Reachable allowed' w := by
  induction h with
  | initial h => exact .initial h
  | step _ he hs ih => exact .step ih (hle _ _ he) hs

/-- A run as a list of events. -/
def World.run (w : World) (events : List Event) : Option World := events.foldlM World.after w

theorem Reachable.run {allowed : World → Event → Prop} {w₀ : Option World} {w : World}
    {events : List Event} (h₀ : ∀ w ∈ w₀, Initial w) (hall : ∀ e ∈ events, ∀ w, allowed w e)
    (hrun : w₀.bind (·.run events) = some w) : Reachable allowed w := by
  obtain ⟨w₁, hw₁, hevents⟩ := Option.bind_eq_some_iff.mp hrun
  have h : Reachable allowed w₁ := .initial (h₀ w₁ hw₁)
  clear hw₁ hrun
  induction events generalizing w₁ with
  | nil =>
    obtain rfl : w₁ = w := by simpa [World.run] using hevents
    exact h
  | cons e events ih =>
    simp only [World.run, List.foldlM_cons, Option.bind_eq_bind, Option.bind_eq_some_iff]
      at hevents
    obtain ⟨w₂, h₂, hevents⟩ := hevents
    exact ih (fun e he => hall e (List.mem_cons_of_mem _ he)) w₂ hevents
      (h.step (hall e List.mem_cons_self w₁) (World.step_after h₂))

end Delegation
