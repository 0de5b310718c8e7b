import Delegation.Latest.Locks
import Delegation.Latest.NodeChecks

/-!
# What the other endpoints refuse

The checks of the calls that are not the delegators': those that deal with nodes, those that start
and continue global operations, and those that write a setting. As for the delegators, the lists are
complete, on the ledgers that runs without a cleanup of dust lead to. The contract owns what
`stakeNodes` and `unJailNodes` send, `total_unprotected` does not underflow, and an operation does
not get stuck, so no administrative call can fail for another reason, and an operation only when a
swap has no room for its users.

`setServiceFee`, `unStakeTokens` and `unBondTokens` do not check the caller.
-/

namespace Delegation

open Outcome Ledger

namespace Ledger

variable {s : Ledger} {env : Env} {R : Panic → Prop}

/-- `#[only_owner]` -/
def ownerCheck (s : Ledger) (env : Env) : Bool × Panic :=
  required (env.caller = s.owner) "Endpoint can only be called by owner"

/-! ### Global operations -/

/-- What the endpoints check that start an operation. In bootstrap mode any cap is allowed: above
what is available it is stored, and the contract stays in that mode. -/
def operationChecks (s : Ledger) (env : Env) : Operation → List (Bool × Panic)
  | .modifyTotalDelegationCap newTotalCap =>
      [s.ownerCheck env,
        required (s.isGlobalOpInProgress = false)
          "cannot modify total delegation cap when last is in progress",
        required (s.bootstrapMode ∨ newTotalCap ≤ s.maxAvailable)
          "new delegation cap must be less or equal to total active + waiting",
        required (s.bootstrapMode ∨ newTotalCap ≤ s.totalDelegationCap ∨
            s.userStakeOfType 0 .unStaked = 0)
          "no unstaked funds should be present when increasing delegation cap",
        required (s.cumulatedRewards + s.funds.owed + (s.previousTotalCap - newTotalCap) ≤
            s.balance + s.sentRewards)
          "not enough funds in contract to pay those who are forced unstaked"]
  | .setServiceFee serviceFeePer10000 =>
      [required (serviceFeePer10000 ≤ percentageDenominator) "service fee out of range",
        required (s.isGlobalOpInProgress = false) "global checkpoint is in progress"]

/-- What `continueGlobalOperation` checks. -/
def continueChecks (s : Ledger) : List (Bool × Panic) :=
  [required ((s.featureFlag "continueGlobalOperation").getD true)
    "continueGlobalOperation currently disabled"]

theorem continueGlobalOperation_crowded (hs : s.FundsSound) (env : Env)
    (orc : GlobalOpCheckpoint) :
    Spec (s.continueGlobalOperation env orc) (fun _ => True) fun e => Crowded e ∨ e.Arith := by
  refine (continueGlobalOperation_ticks hs env orc).mono (fun _ _ => trivial) fun e he => ?_
  rcases he with ⟨i, hcapacity⟩ | ⟨harith, -⟩
  · exact .inl hcapacity.1
  · exact .inr harith

theorem Covered.le (h : s.Covered) :
    s.cumulatedRewards + s.funds.owed ≤ s.balance + s.sentRewards :=
  (Nat.le_add_right _ _).trans h

/-- The plan of a change checks what the change is for. -/
theorem planModifyTotalDelegationCap_decides
    (hle : s.cumulatedRewards + s.funds.owed ≤ s.balance + s.sentRewards)
    (newTotalCap previous : ℕ) :
    Decides R
      [required (newTotalCap ≤ previous ∨ s.userStakeOfType 0 .unStaked = 0)
          "no unstaked funds should be present when increasing delegation cap",
        required (s.cumulatedRewards + s.funds.owed + (previous - newTotalCap) ≤
            s.balance + s.sentRewards)
          "not enough funds in contract to pay those who are forced unstaked"]
      (s.planModifyTotalDelegationCap newTotalCap previous) := by
  simp only [planModifyTotalDelegationCap]
  by_cases heq : newTotalCap = previous
  · rw [if_pos heq]
    exact decides_of_pos (.inl heq.le) (decides_of_pos (by omega) rfl)
  rw [if_neg heq]
  by_cases hlt : previous < newTotalCap
  · rw [if_pos hlt]
    refine decides_require_iff (or_iff_right hlt.not_ge).symm fun _ => ?_
    exact decides_of_pos (by omega) rfl
  · rw [if_neg hlt]
    refine decides_of_pos (.inl (not_lt.mp hlt)) ?_
    obtain ⟨unprotected, hadd⟩ := Nat.exists_eq_add_of_le hle
    rw [totalUnprotected_eq_ok.mpr hadd.symm, ok_bind]
    exact decides_require_iff (by omega) fun _ => rfl

/-- The operation that a plan begins is work. -/
theorem startModifyTotalDelegationCap_decides
    (hle : s.cumulatedRewards + s.funds.owed ≤ s.balance + s.sentRewards) (hs : s.FundsSound)
    (newTotalCap previous : ℕ) :
    Decides (fun e => Crowded e ∨ e.Arith)
      [required (newTotalCap ≤ previous ∨ s.userStakeOfType 0 .unStaked = 0)
          "no unstaked funds should be present when increasing delegation cap",
        required (s.cumulatedRewards + s.funds.owed + (previous - newTotalCap) ≤
            s.balance + s.sentRewards)
          "not enough funds in contract to pay those who are forced unstaked"]
      (s.startModifyTotalDelegationCap env newTotalCap previous) := by
  refine Decides.bind_work (Q := fun _ => True)
    (planModifyTotalDelegationCap_decides hle newTotalCap previous) fun plan _ => ?_
  cases plan with
  | none => trivial
  | some mdcapData => exact continueGlobalOperation_crowded hs env _

theorem modifyTotalDelegationCap_decides (h : s.Accounted) (newTotalCap : ℕ) :
    Decides (fun e => Crowded e ∨ e.Arith)
      (s.operationChecks env (.modifyTotalDelegationCap newTotalCap))
      (s.modifyTotalDelegationCap env newTotalCap) := by
  have hle := h.covered.le
  have hs := h.consistent.sound
  refine decides_require fun _ => decides_require fun _ => ?_
  simp only [previousTotalCap]
  split_ifs with hboot hlt
  · exact decides_of_pos (.inl hboot) (decides_of_pos (.inl hboot)
      (decides_of_pos (by omega) rfl))
  · -- the contract leaves bootstrap mode, and the cap does not grow
    refine decides_of_pos (.inl hboot) (Decides.congr (startModifyTotalDelegationCap_decides
      (s := { s with bootstrapMode := false }) hle hs newTotalCap s.maxAvailable) ?_)
    simp [required, hboot, not_lt.mp hlt]
  · refine decides_require_iff (or_iff_right hboot).symm fun _ => ?_
    rw [required_congr (or_iff_right hboot)]
    exact startModifyTotalDelegationCap_decides hle hs newTotalCap s.totalDelegationCap

theorem setServiceFee_decides (h : s.Accounted) (serviceFeePer10000 : ℕ) :
    Decides (fun e => Crowded e ∨ e.Arith)
      (s.operationChecks env (.setServiceFee serviceFeePer10000))
      (s.setServiceFee env serviceFeePer10000) := by
  refine decides_require fun _ => decides_require fun _ => ?_
  refine Spec.decides (P := fun _ => True) ?_
  split_ifs
  · trivial
  · trivial
  · exact continueGlobalOperation_crowded h.consistent.sound env _

/-- **Starting an operation** fails for nothing but a failed check and too many users: the machine
does not get stuck. -/
theorem startOperation_decides (h : s.Accounted) (env : Env) (op : Operation) :
    Decides Crowded (s.operationChecks env op) (s.startOperation env op) := by
  have hdecides : Decides (fun e => Crowded e ∨ e.Arith) (s.operationChecks env op)
      (s.startOperation env op) := by
    cases op with
    | modifyTotalDelegationCap newTotalCap => exact modifyTotalDelegationCap_decides h newTotalCap
    | setServiceFee serviceFeePer10000 => exact setServiceFee_decides h serviceFeePer10000
  exact (hdecides.and (h.startOperation_not_arith env op)).mono fun _ he => he.1.resolve_right he.2

theorem continueGlobalOperation_decides (h : s.Accounted) (env : Env) :
    Decides Crowded s.continueChecks (s.continueGlobalOperationEndpoint env) := by
  have hdecides : Decides (fun e => Crowded e ∨ e.Arith) s.continueChecks
      (s.continueGlobalOperationEndpoint env) :=
    decides_require fun _ => (continueGlobalOperation_crowded h.consistent.sound env _).decides
  exact (hdecides.and (h.continueGlobalOperation_not_arith env)).mono fun _ he =>
    he.1.resolve_right he.2

end Ledger

namespace Contract

variable {c : Contract} {env : Env} {R : Panic → Prop}

/-! ### Nodes -/

/-- The check that all operations on nodes begin with. -/
def idleCheck (c : Contract) : Bool × Panic :=
  required (c.ledger.isGlobalOpInProgress = false)
    "node operations are temporarily paused as checkpoint is reset"

/-- What `stakeNodes` checks: the contract may stake, it owns the amount, and the keys. -/
def stakeNodesChecks (c : Contract) (env : Env) (amountToStake : ℕ) (blsKeys : List BLSKey) :
    List (Bool × Panic) :=
  [c.ledger.ownerCheck env,
    required (c.ledger.bootstrapMode = false) "cannot stake nodes in bootstrap mode",
    c.idleCheck,
    required (c.ledger.cumulatedRewards + c.ledger.funds.owed + amountToStake ≤
      c.ledger.balance + c.ledger.sentRewards) "not enough funds in contract to stake nodes",
    required (c.ledger.userStakeOfType 0 .active * c.ledger.ownerMinStakeShare ≤
        c.ledger.userStakeOfType ownerUserId .active * percentageDenominator)
      "owner doesn't have enough stake in the contract"] ++
    loopChecks c.nodes.stakeNodeChecks [] blsKeys

/-- What `unstake_nodes` checks: first all keys, then all states. -/
def unstakeNodesChecks (c : Contract) (blsKeys : List BLSKey) : List (Bool × Panic) :=
  c.idleCheck :: (loopChecks c.nodes.pushNodeIdChecks [] blsKeys ++
    loopChecks c.nodes.unstakeNodeChecks [] blsKeys)

/-- What the administrative calls check. -/
def administrativeChecks (c : Contract) (env : Env) : Call → List (Bool × Panic)
  | .addNodes blsKeysSignatures =>
      c.ledger.ownerCheck env :: loopChecks c.nodes.addNodeChecks [] blsKeysSignatures
  | .removeNodes blsKeys =>
      c.ledger.ownerCheck env :: loopChecks c.nodes.removeNodeChecks [] blsKeys
  | .stakeNodes amountToStake blsKeys => c.stakeNodesChecks env amountToStake blsKeys
  | .unStakeNodes blsKeys => c.ledger.ownerCheck env :: c.unstakeNodesChecks blsKeys
  | .unStakeNodesAndTokens blsKeys => c.ledger.ownerCheck env :: c.unstakeNodesChecks blsKeys
  | .forceNodeUnBondPeriod blsKeys =>
      c.ledger.ownerCheck env :: loopChecks c.nodes.forceUnbondPeriodChecks [] blsKeys
  | .unBondNodes blsKeys =>
      c.ledger.ownerCheck env :: c.idleCheck :: required (blsKeys ≠ []) "no BLS keys provided" ::
        loopChecks c.nodes.unBondNodeChecks [] blsKeys
  | .unBondAllPossibleNodes => c.ledger.ownerCheck env :: c.idleCheck :: c.nodes.unBondAllChecks
  | .claimUnusedFunds => [c.ledger.ownerCheck env, c.idleCheck]
  | .unJailNodes blsKeys =>
      c.ledger.ownerCheck env :: loopChecks c.nodes.unjailNodeChecks [] blsKeys
  | .setNumBlocksBeforeUnBond _ | .setMinimumStake _ | .dnsRegister _ _ | .setFeatureFlag _ _
  | .pause | .unpause => [c.ledger.ownerCheck env]
  | _ => []

/-- The contract owns what it sends. -/
theorem sendAsync_spec {egld : ℕ} (hle : egld ≤ c.ledger.balance) (recipient : Address)
    (request : Request) (callback : Option Callback) :
    Spec (c.sendAsync recipient request egld callback) (fun _ => True) R := by
  unfold sendAsync
  rw [if_pos hle]
  trivial

theorem stakeNodes_decides (hs : c.nodes.Numbered c.nodes.numNodes) (h : c.ledger.Accounted)
    (amountToStake : ℕ) (blsKeys : List BLSKey) :
    Decides R (c.stakeNodesChecks env amountToStake blsKeys)
      (c.stakeNodes env amountToStake blsKeys) := by
  have hsent := h.sum_le
  obtain ⟨unprotected, hadd⟩ := Nat.exists_eq_add_of_le h.covered.le
  refine decides_require fun _ => decides_require fun _ => decides_require fun _ => ?_
  rw [totalUnprotected_eq_ok.mpr hadd.symm, ok_bind]
  refine decides_require_iff (by omega) fun hle => decides_require fun _ => ?_
  exact Decides.bind_work (NodeStore.prepareStakeNodes_decides hs blsKeys) fun r _ =>
    sendAsync_spec (by simp only; omega) _ _ _

theorem unstakeNodesWith_decides (hs : c.nodes.Numbered c.nodes.numNodes) (unstakeTokens : Bool)
    (blsKeys : List BLSKey) :
    Decides R (c.unstakeNodesChecks blsKeys) (c.unstakeNodesWith unstakeTokens blsKeys) := by
  refine decides_require fun _ => ?_
  refine (c.nodes.pushNodeIds_decides blsKeys).bind fun nodeIds hok => ?_
  obtain ⟨hids, hknown⟩ := (c.nodes.pushNodeIds_spec blsKeys).of_ok hok
  rw [hids]
  exact Decides.bind_work (NodeStore.prepareUnstakeNodes_decides hs hknown) fun _ _ =>
    sendAsync_spec (Nat.zero_le _) _ _ _

theorem unBondAllPossibleNodes_decides (c : Contract) (env : Env) :
    Decides R (c.administrativeChecks env .unBondAllPossibleNodes)
      (c.unBondAllPossibleNodes env) := by
  refine decides_require fun _ => decides_require fun _ => ?_
  refine Decides.bind_work (Q := fun _ => True) c.nodes.prepareUnbondAll_decides fun r _ => ?_
  simp only
  split_ifs
  · trivial
  · exact sendAsync_spec (Nat.zero_le _) _ _ _

theorem decides_onNodes {r : Exec NodeStore} {checks : List (Bool × Panic)}
    (h : Decides R checks r) : Decides R (c.ledger.ownerCheck env :: checks) (c.onNodes env r) :=
  decides_require fun _ => Decides.bind_work (Q := fun _ => True) h fun _ _ => trivial

theorem decides_onSettings {ledger : Ledger} :
    Decides R [c.ledger.ownerCheck env] (c.onSettings env ledger) :=
  decides_require fun _ => rfl

/-- **Every administrative call** makes its checks, and has no other way to fail. -/
theorem administrative_decides (hs : c.nodes.Numbered c.nodes.numNodes) (h : c.ledger.Accounted)
    (hpay : env.payment ≤ c.ledger.balance) {call : Call} (hcall : call.administrative = true) :
    Decides R (c.administrativeChecks env call) (c.endpoint env call) := by
  cases call with
  | addNodes pairs => exact decides_onNodes (NodeStore.addNodes_decides hs pairs)
  | removeNodes blsKeys => exact decides_onNodes (NodeStore.removeNodes_decides hs blsKeys)
  | updateUserAddress addresses => exact rfl
  | stakeNodes amountToStake blsKeys => exact stakeNodes_decides hs h amountToStake blsKeys
  | unStakeNodes blsKeys | unStakeNodesAndTokens blsKeys =>
    exact decides_require fun _ => unstakeNodesWith_decides hs _ blsKeys
  | forceNodeUnBondPeriod blsKeys =>
    exact decides_onNodes (c.nodes.forceUnbondPeriods_decides blsKeys)
  | unBondNodes blsKeys =>
    refine decides_require fun _ => decides_require fun _ => decides_require fun _ => ?_
    exact Decides.bind_work (NodeStore.prepareUnbondNodes_decides hs blsKeys) fun _ _ =>
      sendAsync_spec (Nat.zero_le _) _ _ _
  | unBondAllPossibleNodes => exact c.unBondAllPossibleNodes_decides env
  | claimUnusedFunds =>
    exact decides_require fun _ => decides_require fun _ =>
      (sendAsync_spec (Nat.zero_le _) _ _ _).decides
  | unJailNodes blsKeys =>
    refine decides_require fun _ => ?_
    exact Decides.bind_work (c.nodes.checkUnjailNodes_decides blsKeys) fun _ _ =>
      sendAsync_spec hpay _ _ _
  | dnsRegister dnsAddress name =>
    exact decides_require fun _ => (sendAsync_spec hpay _ _ _).decides
  | unStakeTokens amount | unBondTokens amount =>
    exact (sendAsync_spec (Nat.zero_le _) _ _ _).decides
  | setNumBlocksBeforeUnBond | setMinimumStake | setFeatureFlag | pause | unpause =>
    exact decides_onSettings
  | _ => cases hcall

/-! ### Transactions -/

/-- What a transaction of an administrative call checks. -/
def transactionChecks (c : Contract) (env : Env) (call : Call) : List (Bool × Panic) :=
  if call.payable then c.administrativeChecks env call
  else notPayable env :: c.administrativeChecks env call

/-- A transaction of a call that is not payable works on the contract as it is. -/
theorem decides_transaction_unpaid {call : Call} {checks : List (Bool × Panic)}
    (hpay : call.payable = false)
    (h : env.payment = 0 → Decides R checks (c.endpoint env call)) :
    Decides R (notPayable env :: checks) (c.transaction env call) := by
  simp only [transaction, hpay, Bool.false_eq_true, false_or]
  refine decides_require fun hzero => ?_
  rw [hzero]
  exact h hzero

/-- No check of a payable call looks at the balance. -/
theorem administrativeChecks_credit {call : Call} (hcall : call.administrative = true)
    (hpay : call.payable = true) (egld : ℕ) :
    (c.credit egld).administrativeChecks env call = c.administrativeChecks env call := by
  cases call with
  | unJailNodes | dnsRegister => rfl
  | stake => cases hcall
  | _ => cases hpay

theorem transaction_decides (hs : c.nodes.Numbered c.nodes.numNodes) (h : c.ledger.Accounted)
    {call : Call} (hcall : call.administrative = true) :
    Decides R (c.transactionChecks env call) (c.transaction env call) := by
  unfold transactionChecks
  cases hpay : call.payable with
  | false =>
    exact decides_transaction_unpaid hpay fun hzero =>
      administrative_decides hs h (hzero.le.trans (Nat.zero_le _)) hcall
  | true =>
    have hcredit : (c.credit env.payment).ledger.Accounted :=
      h.act (e := .receive env.payment) .received rfl
    rw [if_pos rfl, ← administrativeChecks_credit hcall hpay env.payment]
    exact decides_transaction_of_payable hpay
      (administrative_decides (c := c.credit env.payment) hs hcredit (Nat.le_add_left _ _) hcall)

end Contract

open Contract

/-- **What the other endpoints refuse.** In every reachable state an administrative call, with any
list of keys, is accepted exactly when its checks pass, and refused with the error of the first that
does not. A call that starts or continues a global operation does the same, but for a swap that
meets too many users. -/
theorem refusals_of_reachable {w : World} (h : Reachable (fun _ e => e.cleansDust = false) w)
    (env : Env) :
    (∀ call, call.administrative = true → Decides (fun _ => False)
      (w.contract.transactionChecks env call) (w.contract.transaction env call)) ∧
    (∀ op, Decides Crowded (notPayable env :: w.contract.ledger.operationChecks env op)
      (w.contract.transaction env op.call)) ∧
    Decides Crowded (notPayable env :: w.contract.ledger.continueChecks)
      (w.contract.transaction env .continueGlobalOperation) := by
  have hacc := h.accounted
  refine ⟨fun call hcall =>
    transaction_decides (numbered_of_reachable (h.mono fun _ _ _ => trivial)) hacc hcall,
    fun op => ?_, ?_⟩
  · cases op with
    | modifyTotalDelegationCap newTotalCap =>
      exact decides_transaction_unpaid rfl fun _ => decides_onLedgerFst
        (Ledger.startOperation_decides hacc env (.modifyTotalDelegationCap newTotalCap))
    | setServiceFee serviceFeePer10000 =>
      exact decides_transaction_unpaid rfl fun _ => decides_onLedgerFst
        (Ledger.startOperation_decides hacc env (.setServiceFee serviceFeePer10000))
  · exact decides_transaction_unpaid rfl fun _ => decides_onLedgerFst
      (Ledger.continueGlobalOperation_decides hacc env)

/-- Of two inactive nodes both may be staked, but not one of them twice, and a cap above what the
delegators have is refused. -/
theorem refusals_of_reachable_repeated :
    ∃ w : World,
      Spec (w.contract.transaction (.plain 1 0 9) (.stakeNodes 0 [5, 6])) (fun _ => True)
        (fun _ => False) ∧
      Spec (w.contract.transaction (.plain 1 0 9) (.stakeNodes 0 [5, 6, 5])) (fun _ => False)
        (· = .scPanic "node must be inactive") ∧
      Spec (w.contract.transaction (.plain 1 0 9) (.modifyTotalDelegationCap 5)) (fun _ => False)
        (fun e => e =
          .scPanic "new delegation cap must be less or equal to total active + waiting" ∨
            Crowded e) := by
  let events : List Event :=
    [.transaction (.plain 1 0 9) (.modifyTotalDelegationCap 0),
      .transaction (.plain 1 0 9) (.addNodes [(5, 50), (6, 60)])]
  have hrun : ((World.deploy 1 0 2 0 0 9 0 0).bind (·.run events)).map (fun w =>
      (refusal (w.contract.transactionChecks (.plain 1 0 9) (.stakeNodes 0 [5, 6])),
        refusal (w.contract.transactionChecks (.plain 1 0 9) (.stakeNodes 0 [5, 6, 5])),
        refusal (notPayable (.plain 1 0 9) ::
          w.contract.ledger.operationChecks (.plain 1 0 9) (.modifyTotalDelegationCap 5)))) =
      some (none, some (.scPanic "node must be inactive"), some
        (.scPanic "new delegation cap must be less or equal to total active + waiting")) := by
    decide +kernel
  obtain ⟨w, hw, hobs⟩ := Option.map_eq_some_iff.mp hrun
  simp only [Prod.mk.injEq] at hobs
  obtain ⟨haccepted, hrefused, hcap⟩ := hobs
  have hreach : Reachable (fun _ e => e.cleansDust = false) w := by
    refine .run (fun _ h => World.initial_deploy h) (fun e he _ => ?_) hw
    rcases List.mem_cons.mp he with rfl | he
    · rfl
    · rw [List.mem_singleton.mp he]
      rfl
  obtain ⟨hcalls, hops, -⟩ := refusals_of_reachable hreach (.plain 1 0 9)
  exact ⟨w, (hcalls _ rfl).accepts haccepted,
    ((hcalls _ rfl).refuses hrefused).mono (fun _ h => h) fun _ he => he.resolve_right id,
    (hops (.modifyTotalDelegationCap 5)).refuses hcap⟩

end Delegation
