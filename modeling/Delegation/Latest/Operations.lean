import Delegation.Latest.Tick

/-!
# Starting and continuing operations

The two endpoints that start an operation either settle the matter at once or open an operation and
begin to work on it (`Opened`). Which of the two, and with which checkpoint, does not depend on the
gas, so two calls that differ in their gas only start the same machine.
-/

namespace Delegation

open Outcome Loop StateTransition FundStore

/-- The endpoints that start an operation, with their arguments. -/
inductive Operation
  | modifyTotalDelegationCap (newTotalCap : ℕ)
  | setServiceFee (serviceFeePer10000 : ℕ)
  deriving DecidableEq, Repr

namespace Ledger

variable {s s' : Ledger} {env env' : Env}

/-- The call of such an endpoint. -/
def startOperation (s : Ledger) (env : Env) :
    Operation → Exec (Ledger × OperationCompletionStatus)
  | .modifyTotalDelegationCap newTotalCap => s.modifyTotalDelegationCap env newTotalCap
  | .setServiceFee serviceFeePer10000 => s.setServiceFee env serviceFeePer10000

/-- The plan of a change of the cap. -/
inductive Planned (s : Ledger) (newTotalCap previousTotalCap : ℕ) :
    ModifyTotalDelegationCapData → Prop
  | increase (hlt : previousTotalCap < newTotalCap) (hunstaked : s.funds.typeTotal .unStaked = 0) :
      Planned s newTotalCap previousTotalCap
        { newDelegationCap := newTotalCap
          remainingSwapWaitingToActive := newTotalCap - previousTotalCap
          remainingSwapActiveToDefP := 0
          remainingSwapUnstakedToDefP := 0
          step := .computeAllRewards (.new s.cumulatedRewards) }
  | decrease {unprotected active unstaked : ℕ} (hlt : newTotalCap < previousTotalCap)
      (hunprotected : s.totalUnprotected = .ok unprotected)
      (hle : previousTotalCap - newTotalCap ≤ unprotected)
      (hunstaked : unstaked = min (previousTotalCap - newTotalCap) (s.funds.typeTotal .unStaked))
      (hadd : active + unstaked = previousTotalCap - newTotalCap) :
      Planned s newTotalCap previousTotalCap
        { newDelegationCap := newTotalCap
          remainingSwapWaitingToActive := 0
          remainingSwapActiveToDefP := active
          remainingSwapUnstakedToDefP := unstaked
          step := .computeAllRewards (.new s.cumulatedRewards) }

theorem planModifyTotalDelegationCap_eq_ok {newTotalCap previousTotalCap : ℕ}
    {plan : Option ModifyTotalDelegationCapData}
    (h : s.planModifyTotalDelegationCap newTotalCap previousTotalCap = .ok plan) :
    plan = none ∧ newTotalCap = previousTotalCap ∨
      ∃ mdcapData, plan = some mdcapData ∧ s.Planned newTotalCap previousTotalCap mdcapData := by
  simp only [planModifyTotalDelegationCap] at h
  by_cases heq : newTotalCap = previousTotalCap
  · rw [if_pos heq] at h
    exact .inl ⟨(Except.ok.inj h).symm, heq⟩
  rw [if_neg heq] at h
  by_cases hlt : previousTotalCap < newTotalCap
  · rw [if_pos hlt] at h
    obtain ⟨_, hreq, h⟩ := bind_eq_ok.mp h
    exact .inr ⟨_, (Except.ok.inj h).symm, .increase hlt (require_eq_ok.mp hreq)⟩
  · rw [if_neg hlt] at h
    obtain ⟨unprotected, hunp, h⟩ := bind_eq_ok.mp h
    obtain ⟨_, hreq, h⟩ := bind_eq_ok.mp h
    refine .inr ⟨_, (Except.ok.inj h).symm, .decrease (by omega) hunp (require_eq_ok.mp hreq)
      ?_ ?_⟩
    · exact (min_def _ _).symm
    · split_ifs <;> omega

/-- A plan fails a check, or because `total_unprotected` does. -/
theorem planModifyTotalDelegationCap_fails (s : Ledger) (newTotalCap previousTotalCap : ℕ) :
    Spec (s.planModifyTotalDelegationCap newTotalCap previousTotalCap)
      (fun _ => True) fun e => (∃ msg, e = .scPanic msg) ∨ s.totalUnprotected = .error e := by
  simp only [planModifyTotalDelegationCap]
  split
  · trivial
  split
  · exact Spec.bind (spec_require fun _ => .inl ⟨_, rfl⟩) fun _ _ => trivial
  · refine Spec.bind (P := fun _ => True) (Spec.intro (fun _ _ => trivial) fun _ he => .inr he)
      fun _ _ => ?_
    exact Spec.bind (spec_require fun _ => .inl ⟨_, rfl⟩) fun _ _ => trivial

/-- A plan does not look at the mode. -/
theorem Planned.of_bootstrapEnded {newTotalCap previousTotalCap : ℕ}
    {mdcapData : ModifyTotalDelegationCapData}
    (h : ({ s with bootstrapMode := false } : Ledger).Planned newTotalCap previousTotalCap
      mdcapData) : s.Planned newTotalCap previousTotalCap mdcapData := by
  cases h with
  | increase hlt hunstaked => exact .increase hlt hunstaked
  | decrease hlt hunp hle hunstaked hadd => exact .decrease hlt hunp hle hunstaked hadd

/-- What is settled before an operation begins: the ledger and the checkpoint from which the call
goes on, `none` when there is nothing to go on with. -/
inductive Opened (s : Ledger) : Operation → Ledger → GlobalOpCheckpoint → Prop
  | capStored {newTotalCap : ℕ} (hboot : s.bootstrapMode = true)
      (hlt : s.maxAvailable < newTotalCap) :
      Opened s (.modifyTotalDelegationCap newTotalCap)
        { s with totalDelegationCap := newTotalCap } .none
  | bootstrapEnded (hboot : s.bootstrapMode = true) :
      Opened s (.modifyTotalDelegationCap s.maxAvailable) { s with bootstrapMode := false } .none
  | capKept (hboot : s.bootstrapMode = false) (hle : s.totalDelegationCap ≤ s.maxAvailable) :
      Opened s (.modifyTotalDelegationCap s.totalDelegationCap) s .none
  | capChange {newTotalCap previousTotalCap : ℕ} {mdcapData : ModifyTotalDelegationCapData}
      (hprevious : previousTotalCap =
        if s.bootstrapMode then s.maxAvailable else s.totalDelegationCap)
      (hle : newTotalCap ≤ s.maxAvailable)
      (hplan : s.Planned newTotalCap previousTotalCap mdcapData) :
      Opened s (.modifyTotalDelegationCap newTotalCap) { s with bootstrapMode := false }
        (.modifyTotalDelegationCap mdcapData)
  | feeKept (hle : s.serviceFee ≤ percentageDenominator) :
      Opened s (.setServiceFee s.serviceFee) s .none
  | feeStored {serviceFeePer10000 : ℕ} (hle : serviceFeePer10000 ≤ percentageDenominator)
      (hboot : s.bootstrapMode = true) :
      Opened s (.setServiceFee serviceFeePer10000) { s with serviceFee := serviceFeePer10000 } .none
  | feeChange {serviceFeePer10000 : ℕ} (hle : serviceFeePer10000 ≤ percentageDenominator)
      (hne : s.serviceFee ≠ serviceFeePer10000) (hboot : s.bootstrapMode = false) :
      Opened s (.setServiceFee serviceFeePer10000) s
        (.changeServiceFee serviceFeePer10000 (.new s.cumulatedRewards))

/-- Nothing to go on with. -/
theorem continueGlobalOperation_none (hop : s.globalOpCheckpoint = .none) :
    s.continueGlobalOperation env .none = .ok (s, .completed) := by
  simp only [continueGlobalOperation]
  rw [whileLoop_of_not_guard (by rfl)]
  simp only [ok_bind, pure_eq_ok]
  rw [← hop]

theorem startModifyTotalDelegationCap_opens {s₀ : Ledger} {newTotalCap previousTotalCap : ℕ}
    {r : Ledger × OperationCompletionStatus} (hop : s₀.globalOpCheckpoint = .none)
    (h : s₀.startModifyTotalDelegationCap env newTotalCap previousTotalCap = .ok r) :
    ∃ orc, (orc = .none ∧ newTotalCap = previousTotalCap ∨ ∃ mdcapData,
        orc = .modifyTotalDelegationCap mdcapData ∧
          s₀.Planned newTotalCap previousTotalCap mdcapData) ∧
      ∀ env', s₀.startModifyTotalDelegationCap env' newTotalCap previousTotalCap =
        s₀.continueGlobalOperation env' orc := by
  obtain ⟨plan, hplan, -⟩ := bind_eq_ok.mp h
  rcases planModifyTotalDelegationCap_eq_ok hplan with ⟨rfl, heq⟩ | ⟨mdcapData, rfl, hplanned⟩
  · refine ⟨.none, .inl ⟨rfl, heq⟩, fun env' => ?_⟩
    rw [continueGlobalOperation_none hop]
    simp only [startModifyTotalDelegationCap, hplan, ok_bind, pure_eq_ok]
  · refine ⟨_, .inr ⟨mdcapData, rfl, hplanned⟩, fun env' => ?_⟩
    simp only [startModifyTotalDelegationCap, hplan, ok_bind]

/-- **A call that starts an operation** opens it and goes on. -/
theorem startOperation_opens {op : Operation} {r : Ledger × OperationCompletionStatus}
    (h : s.startOperation env op = .ok r) :
    s.globalOpCheckpoint = .none ∧
      (∀ newTotalCap, op = .modifyTotalDelegationCap newTotalCap → env.caller = s.owner) ∧
      ∃ s₀ orc, Opened s op s₀ orc ∧ ∀ env', env'.caller = env.caller →
        s.startOperation env' op = s₀.continueGlobalOperation env' orc := by
  cases op with
  | setServiceFee fee =>
    obtain ⟨_, hfee, h⟩ := bind_eq_ok.mp h
    obtain ⟨_, hbusy, h⟩ := bind_eq_ok.mp h
    have hop : s.globalOpCheckpoint = .none := by
      simpa [isGlobalOpInProgress] using require_eq_ok.mp hbusy
    refine ⟨hop, nofun, ?_⟩
    simp only [startOperation, setServiceFee, hfee, hbusy, ok_bind]
    rw [require_eq_ok] at hfee
    split_ifs with heq hboot
    · subst heq
      exact ⟨s, .none, .feeKept hfee, fun _ _ => (continueGlobalOperation_none hop).symm⟩
    · exact ⟨_, .none, .feeStored hfee hboot, fun _ _ =>
        (continueGlobalOperation_none (s := { s with serviceFee := fee }) hop).symm⟩
    · exact ⟨s, _, .feeChange hfee heq (by simpa using hboot), fun _ _ => rfl⟩
  | modifyTotalDelegationCap newTotalCap =>
    obtain ⟨_, howner, h⟩ := bind_eq_ok.mp h
    obtain ⟨_, hbusy, h⟩ := bind_eq_ok.mp h
    have hop : s.globalOpCheckpoint = .none := by
      simpa [isGlobalOpInProgress] using require_eq_ok.mp hbusy
    have howner' : ∀ env', env'.caller = env.caller → s.onlyOwner env' = .ok () := fun env' he => by
      simp only [onlyOwner, he]
      exact howner
    refine ⟨hop, fun _ _ => require_eq_ok.mp howner, ?_⟩
    split_ifs at h with hboot hlt
    · refine ⟨_, .none, .capStored hboot hlt, fun env' he => ?_⟩
      rw [continueGlobalOperation_none (s := { s with totalDelegationCap := newTotalCap }) hop]
      simp only [startOperation, modifyTotalDelegationCap, howner' env' he, hbusy, ok_bind,
        if_pos hboot, if_pos hlt, pure_eq_ok]
    · have hop₀ : ({ s with bootstrapMode := false } : Ledger).globalOpCheckpoint = .none := hop
      obtain ⟨orc, horc, hcont⟩ := startModifyTotalDelegationCap_opens hop₀ h
      refine ⟨{ s with bootstrapMode := false }, orc, ?_, fun env' he => ?_⟩
      · rcases horc with ⟨rfl, rfl⟩ | ⟨mdcapData, rfl, hplan⟩
        · exact .bootstrapEnded hboot
        · exact .capChange (by rw [if_pos hboot]) (not_lt.mp hlt) hplan.of_bootstrapEnded
      · rw [← hcont env']
        simp only [startOperation, modifyTotalDelegationCap, howner' env' he, hbusy, ok_bind,
          if_pos hboot, if_neg hlt]
    · obtain ⟨_, hle, h⟩ := bind_eq_ok.mp h
      obtain ⟨orc, horc, hcont⟩ := startModifyTotalDelegationCap_opens hop h
      have hb : s.bootstrapMode = false := by simpa using hboot
      have hs₀ : { s with bootstrapMode := false } = s := by rw [← hb]
      refine ⟨s, orc, ?_, fun env' he => ?_⟩
      · rw [require_eq_ok] at hle
        rcases horc with ⟨rfl, rfl⟩ | ⟨mdcapData, rfl, hplan⟩
        · exact .capKept hb hle
        · have hopened := Opened.capChange (s := s) (by rw [if_neg hboot]) hle hplan
          rwa [hs₀] at hopened
      · rw [← hcont env']
        simp only [startOperation, modifyTotalDelegationCap, howner' env' he, hbusy, hle, ok_bind,
          if_neg hboot]

/-! ### How starting an operation fails -/

/-- A call that starts an operation fails a check, or because `total_unprotected` does, or in the
operation that it has opened. -/
inductive StartFails (s : Ledger) (env : Env) (op : Operation) : Panic → Prop
  | check (msg : String) : StartFails s env op (.scPanic msg)
  | unprotected {e : Panic} (h : s.totalUnprotected = .error e) : StartFails s env op e
  | opened {s₀ : Ledger} {orc : GlobalOpCheckpoint} {e : Panic}
      (hop : s.globalOpCheckpoint = .none)
      (howner : ∀ newTotalCap, op = .modifyTotalDelegationCap newTotalCap → env.caller = s.owner)
      (hopened : s.Opened op s₀ orc) (h : CallFails env (s₀.withOp orc) e) : StartFails s env op e

theorem startModifyTotalDelegationCap_fails (hs : s.FundsSound) (env : Env)
    (newTotalCap previousTotalCap : ℕ) :
    Spec (s.startModifyTotalDelegationCap env newTotalCap previousTotalCap)
      (fun _ => True) fun e => (∃ msg, e = .scPanic msg) ∨ s.totalUnprotected = .error e ∨
        ∃ mdcapData, s.Planned newTotalCap previousTotalCap mdcapData ∧
          CallFails env (s.withOp (.modifyTotalDelegationCap mdcapData)) e := by
  refine Spec.bind ((s.planModifyTotalDelegationCap_fails _ _).and_eq.mono (fun _ h => h.2)
    fun _ he => he.imp_right .inl) fun plan hplan => ?_
  cases plan with
  | none => trivial
  | some mdcapData =>
    have hplanned : s.Planned newTotalCap previousTotalCap mdcapData := by
      rcases planModifyTotalDelegationCap_eq_ok hplan with ⟨hnone, -⟩ | ⟨d, hd, hplanned⟩
      · cases hnone
      · cases hd
        exact hplanned
    exact (continueGlobalOperation_ticks hs env _).mono (fun _ _ => trivial)
      fun e he => .inr (.inr ⟨mdcapData, hplanned, he⟩)

theorem startOperation_fails (hs : s.FundsSound) (env : Env) (op : Operation) :
    Spec (s.startOperation env op) (fun _ => True) (StartFails s env op) := by
  cases op with
  | setServiceFee fee =>
    refine Spec.bind (spec_require fun _ => .check _) fun _ hfee => ?_
    refine Spec.bind (spec_require fun _ => .check _) fun _ hbusy => ?_
    split_ifs with heq hboot
    · trivial
    · trivial
    · exact (continueGlobalOperation_ticks hs env _).mono (fun _ _ => trivial) fun e he =>
        .opened (by simpa [isGlobalOpInProgress] using hbusy) nofun
          (.feeChange hfee heq (by simpa using hboot)) he
  | modifyTotalDelegationCap newTotalCap =>
    refine Spec.bind (spec_require fun _ => .check _) fun _ howner => ?_
    refine Spec.bind (spec_require fun _ => .check _) fun _ hbusy => ?_
    have hop : s.globalOpCheckpoint = .none := by simpa [isGlobalOpInProgress] using hbusy
    split_ifs with hboot hlt
    · trivial
    · refine (startModifyTotalDelegationCap_fails (s := { s with bootstrapMode := false }) hs env _
        _).mono (fun _ _ => trivial) fun e he => ?_
      rcases he with ⟨msg, rfl⟩ | hunp | ⟨mdcapData, hplan, hfails⟩
      · exact .check msg
      · exact .unprotected hunp
      · exact .opened hop (fun _ _ => howner)
          (.capChange (by rw [if_pos hboot]) (not_lt.mp hlt) hplan.of_bootstrapEnded) hfails
    · refine Spec.bind (spec_require fun _ => .check _) fun _ hle => ?_
      refine (startModifyTotalDelegationCap_fails hs env _ _).mono (fun _ _ => trivial)
        fun e he => ?_
      rcases he with ⟨msg, rfl⟩ | hunp | ⟨mdcapData, hplan, hfails⟩
      · exact .check msg
      · exact .unprotected hunp
      · have hopened := Opened.capChange (s := s) (by rw [if_neg hboot]) hle hplan
        rw [show ({ s with bootstrapMode := false } : Ledger) = s by
          rw [← show s.bootstrapMode = false by simpa using hboot]] at hopened
        exact .opened hop (fun _ _ => howner) hopened hfails

/-! ### Any number of calls -/

/-- Calls of `continueGlobalOperation` in blocks of one nonce, by anybody and with any gas. -/
inductive Continued (nonce : UInt64) (s : Ledger) : Ledger → Prop
  | refl : Continued nonce s s
  | tail {s' s'' : Ledger} {env : Env} {status : OperationCompletionStatus}
      (h : Continued nonce s s') (hnonce : env.blockNonce = nonce)
      (hcall : s'.continueGlobalOperationEndpoint env = .ok (s'', status)) : Continued nonce s s''

theorem continueGlobalOperationEndpoint_spec (hs : s.FundsSound) (env : Env) :
    Spec (s.continueGlobalOperationEndpoint env)
      (fun r => Called env s r.1 ∧ r.1.FundsSound)
      fun e => (∃ msg, e = .scPanic msg) ∨ CallFails env s e := by
  refine Spec.bind (P := fun _ => True)
    ((spec_require fun _ => .inl ⟨_, rfl⟩).imp fun _ _ => trivial) fun _ _ => ?_
  exact (continueGlobalOperation_ticks hs env s.globalOpCheckpoint).mono (fun _ h => h)
    fun _ => .inr

theorem Continued.reaches {nonce : UInt64} (hs : s.FundsSound) (h : Continued nonce s s') :
    s'.FundsSound ∧ Reaches (tick nonce) s s' := by
  induction h with
  | refl => exact ⟨hs, .refl⟩
  | tail _ hnonce hcall ih =>
    obtain ⟨hcalled, hsound⟩ := (continueGlobalOperationEndpoint_spec ih.1 _).of_ok hcall
    subst hnonce
    exact ⟨hsound, ih.2.trans hcalled.reaches⟩

theorem Opened.funds {op : Operation} {s₀ : Ledger} {orc : GlobalOpCheckpoint}
    (h : Opened s op s₀ orc) : s₀.funds = s.funds := by
  cases h <;> rfl

/-- The first call of an operation, as ticks of the machine. -/
theorem startOperation_called (hs : s.FundsSound) {op : Operation}
    {r : Ledger × OperationCompletionStatus} (h : s.startOperation env op = .ok r) :
    ∃ s₀ orc, Opened s op s₀ orc ∧ Called env (s₀.withOp orc) r.1 ∧ r.1.FundsSound := by
  obtain ⟨-, -, s₀, orc, hopened, hcont⟩ := startOperation_opens h
  have hs₀ : s₀.FundsSound := by
    unfold FundsSound
    rw [hopened.funds]
    exact hs
  exact ⟨s₀, orc, hopened,
    (continueGlobalOperation_ticks hs₀ env orc).of_ok ((hcont env rfl).symm.trans h)⟩

end Ledger

end Delegation
