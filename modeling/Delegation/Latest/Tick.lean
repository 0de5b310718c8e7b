import Delegation.Latest.GlobalOp

/-!
# What one tick does

`Ticked` lists the ticks of an operation with their effects: every invariant of an operation is a
case analysis on it. `tick_eq_none_iff` says when the machine is stuck.
-/

namespace Delegation

open Outcome StateTransition FundStore

/-! ### The computation phase of a checkpoint -/

namespace GlobalOpCheckpoint

/-- The same operation, with another state of the computation. -/
def withData (op : GlobalOpCheckpoint) (data : ComputeAllRewardsData) : GlobalOpCheckpoint :=
  match op with
  | .none => .none
  | .modifyTotalDelegationCap mdcapData =>
      .modifyTotalDelegationCap { mdcapData with step := .computeAllRewards data }
  | .changeServiceFee newServiceFee _ => .changeServiceFee newServiceFee data

theorem computing_of_step {mdcapData : ModifyTotalDelegationCapData} {data : ComputeAllRewardsData}
    (h : mdcapData.step = .computeAllRewards data) :
    (modifyTotalDelegationCap mdcapData).computing = some data := by
  obtain ⟨_, _, _, _, step⟩ := mdcapData
  subst h
  rfl

theorem computing_withData {op : GlobalOpCheckpoint} {data : ComputeAllRewardsData}
    (h : op.computing = some data) (data' : ComputeAllRewardsData) :
    (op.withData data').computing = some data' := by
  cases op with
  | none => cases h
  | modifyTotalDelegationCap => rfl
  | changeServiceFee => rfl

end GlobalOpCheckpoint

namespace Ledger

variable {s s' : Ledger} {nonce : UInt64}

/-- The remainder of the rewards goes to the owner. -/
@[simps]
def withRemainder (s : Ledger) (remainder : ℕ) : Ledger :=
  { s with
    userRewUnclaimed := Function.update s.userRewUnclaimed ownerUserId
      (s.userRewUnclaimed ownerUserId + remainder) }

/-- One tick. -/
inductive Ticked (nonce : UInt64) (s : Ledger) : Ledger → Prop
  | restarted {data : ComputeAllRewardsData} (hop : s.globalOpCheckpoint.computing = some data)
      (hcp : data.rewardsCheckpoint ≠ s.cumulatedRewards) :
      Ticked nonce s (s.withOp (s.globalOpCheckpoint.withData (.new s.cumulatedRewards)))
  | settled {data : ComputeAllRewardsData} {userData : UserRewardData}
      (hop : s.globalOpCheckpoint.computing = some data)
      (hcp : data.rewardsCheckpoint = s.cumulatedRewards) (hlt : data.lastId < s.numUsers)
      (hload : s.loadUpdatedUserRewards (data.lastId + 1) = .ok userData) :
      Ticked nonce s ((s.storeUserRewardData (data.lastId + 1) userData).withOp
        (s.globalOpCheckpoint.withData
          { data with
            sumUnclaimed := data.sumUnclaimed + userData.unclaimedRewards
            lastId := data.lastId + 1 }))
  | feeChanged {newServiceFee remainder : ℕ} {data : ComputeAllRewardsData}
      (hop : s.globalOpCheckpoint = .changeServiceFee newServiceFee data)
      (hcp : data.rewardsCheckpoint = s.cumulatedRewards) (hle : s.numUsers ≤ data.lastId)
      (hsum : data.sumUnclaimed + s.sentRewards + remainder = s.cumulatedRewards) :
      Ticked nonce s ({ s.withRemainder remainder with serviceFee := newServiceFee }.withOp .none)
  | rewardsComputed {remainder : ℕ} {mdcapData : ModifyTotalDelegationCapData}
      {data : ComputeAllRewardsData}
      (hop : s.globalOpCheckpoint = .modifyTotalDelegationCap mdcapData)
      (hstep : mdcapData.step = .computeAllRewards data)
      (hcp : data.rewardsCheckpoint = s.cumulatedRewards) (hle : s.numUsers ≤ data.lastId)
      (hsum : data.sumUnclaimed + s.sentRewards + remainder = s.cumulatedRewards) :
      Ticked nonce s ((s.withRemainder remainder).withOp
        (.modifyTotalDelegationCap { mdcapData with step := .swapWaitingToActive }))
  | activated {funds : FundStore} {moved : ℕ → ℕ} {amount rest : ℕ}
      {mdcapData : ModifyTotalDelegationCapData}
      (hop : s.globalOpCheckpoint = .modifyTotalDelegationCap mdcapData)
      (hstep : mdcapData.step = .swapWaitingToActive)
      (hsw : Swapped Relied s.funds funds .waiting .active (fun _ => some .active) (fun _ => True)
        moved amount)
      (hadd : rest + amount = mdcapData.remainingSwapWaitingToActive) (hpos : 0 < amount) :
      Ticked nonce s ({ s with funds := funds }.withOp
        (.modifyTotalDelegationCap { mdcapData with remainingSwapWaitingToActive := rest }))
  | allActivated {mdcapData : ModifyTotalDelegationCapData}
      (hop : s.globalOpCheckpoint = .modifyTotalDelegationCap mdcapData)
      (hstep : mdcapData.step = .swapWaitingToActive)
      (hrem : mdcapData.remainingSwapWaitingToActive = 0) :
      Ticked nonce s (s.withOp
        (.modifyTotalDelegationCap { mdcapData with step := .swapUnstakedToDeferredPayment }))
  | unstakedDeferred {funds : FundStore} {moved : ℕ → ℕ} {amount rest : ℕ}
      {mdcapData : ModifyTotalDelegationCapData}
      (hop : s.globalOpCheckpoint = .modifyTotalDelegationCap mdcapData)
      (hstep : mdcapData.step = .swapUnstakedToDeferredPayment)
      (hsw : Swapped Relied s.funds funds .unStaked .deferredPayment unstakedToDeferred
        (fun _ => True) moved amount)
      (hadd : rest + amount = mdcapData.remainingSwapUnstakedToDefP) (hpos : 0 < amount) :
      Ticked nonce s ({ s with funds := funds }.withOp
        (.modifyTotalDelegationCap { mdcapData with remainingSwapUnstakedToDefP := rest }))
  | allUnstakedDeferred {mdcapData : ModifyTotalDelegationCapData}
      (hop : s.globalOpCheckpoint = .modifyTotalDelegationCap mdcapData)
      (hstep : mdcapData.step = .swapUnstakedToDeferredPayment)
      (hrem : mdcapData.remainingSwapUnstakedToDefP = 0) :
      Ticked nonce s (s.withOp
        (.modifyTotalDelegationCap { mdcapData with step := .swapActiveToDeferredPayment }))
  | activeDeferred {funds : FundStore} {moved : ℕ → ℕ} {amount rest : ℕ}
      {mdcapData : ModifyTotalDelegationCapData}
      (hop : s.globalOpCheckpoint = .modifyTotalDelegationCap mdcapData)
      (hstep : mdcapData.step = .swapActiveToDeferredPayment)
      (hsw : Swapped Relied s.funds funds .active .deferredPayment
        (fun _ => some (.deferredPayment nonce)) (fun _ => True) moved amount)
      (hadd : rest + amount = mdcapData.remainingSwapActiveToDefP) (hpos : 0 < amount) :
      Ticked nonce s ({ s with funds := funds }.withOp
        (.modifyTotalDelegationCap { mdcapData with remainingSwapActiveToDefP := rest }))
  | capChanged {mdcapData : ModifyTotalDelegationCapData}
      (hop : s.globalOpCheckpoint = .modifyTotalDelegationCap mdcapData)
      (hstep : mdcapData.step = .swapActiveToDeferredPayment)
      (hrem : mdcapData.remainingSwapActiveToDefP = 0) :
      Ticked nonce s
        ({ s with totalDelegationCap := mdcapData.newDelegationCap }.withOp .none)

theorem giveRemainderToOwner_eq_ok {sumUnclaimed : ℕ} :
    s.giveRemainderToOwner sumUnclaimed = .ok s' ↔
      ∃ remainder, sumUnclaimed + s.sentRewards + remainder = s.cumulatedRewards ∧
        s' = s.withRemainder remainder := by
  simp only [giveRemainderToOwner, bind_eq_ok, bigSub_eq_ok, pure_eq_ok, Except.ok.injEq]
  constructor
  · rintro ⟨_, ⟨h₁, rfl⟩, r, ⟨h₂, rfl⟩, rfl⟩
    exact ⟨_, by omega, rfl⟩
  · rintro ⟨r, hr, rfl⟩
    refine ⟨_, ⟨by omega, rfl⟩, r, ⟨by omega, by omega⟩, rfl⟩

theorem computeNextReward_eq_ok {data : ComputeAllRewardsData}
    {c : Ledger × ComputeAllRewardsData} : computeNextReward (s, data) = .ok c ↔
      ∃ userData, s.loadUpdatedUserRewards (data.lastId + 1) = .ok userData ∧
        c = (s.storeUserRewardData (data.lastId + 1) userData,
          { data with
            sumUnclaimed := data.sumUnclaimed + userData.unclaimedRewards
            lastId := data.lastId + 1 }) := by
  simp only [computeNextReward, bind_eq_ok, pure_eq_ok, Except.ok.injEq]
  exact exists_congr fun userData => and_congr_right fun _ => eq_comm

section Parts

variable {data : ComputeAllRewardsData} {goOn : Ledger → ComputeAllRewardsData → Ledger}
  {finish : Ledger → Ledger} {src dst : FundType} {direction : SwapDirection}
  {g : FundDescription → Option FundDescription} {remaining : ℕ}
  {goOn' : Ledger → ℕ → Ledger}

/-- The three kinds of ticks that compute rewards. -/
theorem tickRewards_eq_some (h : s.tickRewards data goOn finish = some s') :
    (data.rewardsCheckpoint ≠ s.cumulatedRewards ∧ s' = goOn s (.new s.cumulatedRewards)) ∨
    (data.rewardsCheckpoint = s.cumulatedRewards ∧ data.lastId < s.numUsers ∧
      ∃ userData, s.loadUpdatedUserRewards (data.lastId + 1) = .ok userData ∧
        s' = goOn (s.storeUserRewardData (data.lastId + 1) userData)
          { data with
            sumUnclaimed := data.sumUnclaimed + userData.unclaimedRewards
            lastId := data.lastId + 1 }) ∨
    (data.rewardsCheckpoint = s.cumulatedRewards ∧ s.numUsers ≤ data.lastId ∧
      ∃ remainder, data.sumUnclaimed + s.sentRewards + remainder = s.cumulatedRewards ∧
        s' = finish (s.withRemainder remainder)) := by
  simp only [tickRewards] at h
  split_ifs at h with hcp hlt
  · exact .inl ⟨hcp, (Option.some.inj h).symm⟩
  · obtain ⟨c, hc, rfl⟩ := Option.map_eq_some_iff.mp h
    obtain ⟨userData, hload, rfl⟩ := computeNextReward_eq_ok.mp (toOption_eq_some.mp hc)
    exact .inr (.inl ⟨not_not.mp hcp, hlt, userData, hload, rfl⟩)
  · obtain ⟨s₁, hs₁, rfl⟩ := Option.map_eq_some_iff.mp h
    obtain ⟨remainder, hsum, rfl⟩ := giveRemainderToOwner_eq_ok.mp (toOption_eq_some.mp hs₁)
    exact .inr (.inr ⟨not_not.mp hcp, not_lt.mp hlt, remainder, hsum, rfl⟩)

/-- The two kinds of ticks that swap. -/
theorem tickSwap_eq_some (hs : s.FundsSound) (hi : Relied src)
    (hg : ∀ d, d.fundType = src → ∃ d', g d = some d' ∧ d'.fundType = dst) (hne : dst ≠ src)
    {end' : Ledger} (h : s.tickSwap src direction g remaining goOn' end' = some s') :
    (∃ funds rest moved amount,
      Swapped Relied s.funds funds src dst g (fun _ => True) moved amount ∧
      rest + amount = remaining ∧ 0 < amount ∧ s' = goOn' { s with funds := funds } rest) ∨
    remaining = 0 ∧ s' = end' := by
  simp only [tickSwap] at h
  split at h
  · next funds rest hone =>
    obtain ⟨moved, amount, hsw, hadd, hpos⟩ := FundStore.Sound.swapOne_eq_some hs hi hg hne hone
    exact .inl ⟨funds, rest, moved, amount, hsw, hadd, hpos, (Option.some.inj h).symm⟩
  · split_ifs at h with h0
    exact .inr ⟨h0, (Option.some.inj h).symm⟩

end Parts

/-- The swap from waiting to active accepts everything. -/
theorem active_of_fundType (d : FundDescription) (_ : d.fundType = .waiting) :
    ∃ d', some FundDescription.active = some d' ∧ d'.fundType = .active := ⟨_, rfl, rfl⟩

/-- The swap from active to deferred accepts everything. -/
theorem deferredPayment_of_fundType (nonce : UInt64) (d : FundDescription)
    (_ : d.fundType = .active) :
    ∃ d', some (FundDescription.deferredPayment nonce) = some d' ∧
      d'.fundType = .deferredPayment := ⟨_, rfl, rfl⟩

/-- **Every tick is one of the list.** -/
theorem ticked_of_tick (hs : s.FundsSound) (h : tick nonce s = some s') : Ticked nonce s s' := by
  simp only [tick] at h
  split at h
  · cases h
  · next mdcapData hop =>
    simp only [tickModifyTotalDelegationCap] at h
    split at h
    · next data hstep =>
      have hcomp : s.globalOpCheckpoint.computing = some data :=
        hop ▸ GlobalOpCheckpoint.computing_of_step hstep
      rcases tickRewards_eq_some h with ⟨hcp, rfl⟩ | ⟨hcp, hlt, userData, hload, rfl⟩ |
        ⟨hcp, hle, remainder, hsum, rfl⟩
      · have htick : Ticked nonce s _ := .restarted hcomp hcp
        rwa [hop] at htick
      · have htick : Ticked nonce s _ := .settled hcomp hcp hlt hload
        rwa [hop] at htick
      · exact .rewardsComputed hop hstep hcp hle hsum
    · next hstep =>
      rcases tickSwap_eq_some hs (by decide) active_of_fundType (by decide) h with
        ⟨funds, rest, moved, amount, hsw, hadd, hpos, rfl⟩ | ⟨hrem, rfl⟩
      · exact .activated hop hstep hsw hadd hpos
      · exact .allActivated hop hstep hrem
    · next hstep =>
      rcases tickSwap_eq_some hs (by decide) unstakedToDeferred_of_fundType (by decide) h with
        ⟨funds, rest, moved, amount, hsw, hadd, hpos, rfl⟩ | ⟨hrem, rfl⟩
      · exact .unstakedDeferred hop hstep hsw hadd hpos
      · exact .allUnstakedDeferred hop hstep hrem
    · next hstep =>
      rcases tickSwap_eq_some hs (by decide) (deferredPayment_of_fundType nonce) (by decide) h with
        ⟨funds, rest, moved, amount, hsw, hadd, hpos, rfl⟩ | ⟨hrem, rfl⟩
      · exact .activeDeferred hop hstep hsw hadd hpos
      · exact .capChanged hop hstep hrem
  · next newServiceFee data hop =>
    have hcomp : s.globalOpCheckpoint.computing = some data := hop ▸ rfl
    rcases tickRewards_eq_some h with ⟨hcp, rfl⟩ | ⟨hcp, hlt, userData, hload, rfl⟩ |
      ⟨hcp, hle, remainder, hsum, rfl⟩
    · have htick : Ticked nonce s _ := .restarted hcomp hcp
      rwa [hop] at htick
    · have htick : Ticked nonce s _ := .settled hcomp hcp hlt hload
      rwa [hop] at htick
    · exact .feeChanged hop hcp hle hsum

/-! ### When the machine is stuck -/

/-- An operation cannot go on. -/
inductive Stuck (s : Ledger) : Prop
  | rewards {data : ComputeAllRewardsData} {e : Panic}
      (hop : s.globalOpCheckpoint.computing = some data)
      (hcp : data.rewardsCheckpoint = s.cumulatedRewards) (hlt : data.lastId < s.numUsers)
      (hload : s.loadUpdatedUserRewards (data.lastId + 1) = .error e)
  | remainder {data : ComputeAllRewardsData} (hop : s.globalOpCheckpoint.computing = some data)
      (hcp : data.rewardsCheckpoint = s.cumulatedRewards) (hle : s.numUsers ≤ data.lastId)
      (hsum : s.cumulatedRewards < data.sumUnclaimed + s.sentRewards)
  | waiting {mdcapData : ModifyTotalDelegationCapData}
      (hop : s.globalOpCheckpoint = .modifyTotalDelegationCap mdcapData)
      (hstep : mdcapData.step = .swapWaitingToActive)
      (hrem : 0 < mdcapData.remainingSwapWaitingToActive)
      (htotal : s.funds.typeTotal .waiting = 0)
  | unStaked {mdcapData : ModifyTotalDelegationCapData}
      (hop : s.globalOpCheckpoint = .modifyTotalDelegationCap mdcapData)
      (hstep : mdcapData.step = .swapUnstakedToDeferredPayment)
      (hrem : 0 < mdcapData.remainingSwapUnstakedToDefP)
      (htotal : s.funds.typeTotal .unStaked = 0)
  | active {mdcapData : ModifyTotalDelegationCapData}
      (hop : s.globalOpCheckpoint = .modifyTotalDelegationCap mdcapData)
      (hstep : mdcapData.step = .swapActiveToDeferredPayment)
      (hrem : 0 < mdcapData.remainingSwapActiveToDefP)
      (htotal : s.funds.typeTotal .active = 0)

section Parts

variable {data : ComputeAllRewardsData} {goOn : Ledger → ComputeAllRewardsData → Ledger}
  {finish : Ledger → Ledger} {src dst : FundType} {direction : SwapDirection}
  {g : FundDescription → Option FundDescription} {remaining : ℕ}
  {goOn' : Ledger → ℕ → Ledger}

theorem stuck_of_tickRewards (hop : s.globalOpCheckpoint.computing = some data)
    (h : s.tickRewards data goOn finish = none) : Stuck s := by
  simp only [tickRewards] at h
  split_ifs at h with hcp hlt
  · rw [Option.map_eq_none_iff] at h
    cases hload : s.loadUpdatedUserRewards (data.lastId + 1) with
    | error e => exact .rewards hop (not_not.mp hcp) hlt hload
    | ok userData =>
      rw [computeNextReward_eq_ok.mpr ⟨userData, hload, rfl⟩] at h
      cases h
  · rw [Option.map_eq_none_iff] at h
    refine .remainder hop (not_not.mp hcp) (not_lt.mp hlt) (not_le.mp fun hle => ?_)
    obtain ⟨remainder, hrem⟩ := Nat.exists_eq_add_of_le hle
    rw [giveRemainderToOwner_eq_ok.mpr ⟨remainder, hrem.symm, rfl⟩] at h
    cases h

theorem typeTotal_eq_zero_of_tickSwap (hs : s.FundsSound) (hi : Relied src)
    (hg : ∀ d, d.fundType = src → ∃ d', g d = some d' ∧ d'.fundType = dst) (hne : dst ≠ src)
    {end' : Ledger} (h : s.tickSwap src direction g remaining goOn' end' = none) :
    0 < remaining ∧ s.funds.typeTotal src = 0 := by
  simp only [tickSwap] at h
  split at h
  · cases h
  · next hone =>
    split_ifs at h with h0
    exact ⟨Nat.pos_of_ne_zero h0,
      ((FundStore.Sound.swapOne_eq_none_iff hs hi hg hne).mp hone).resolve_left h0⟩

end Parts

/-- **The machine stops** when the operation is over, or when it is stuck. -/
theorem tick_eq_none (hs : s.FundsSound) (h : tick nonce s = none) :
    s.globalOpCheckpoint = .none ∨ Stuck s := by
  simp only [tick] at h
  split at h
  · next hop => exact .inl hop
  · next mdcapData hop =>
    right
    simp only [tickModifyTotalDelegationCap] at h
    split at h
    · next data hstep =>
      exact stuck_of_tickRewards (hop ▸ GlobalOpCheckpoint.computing_of_step hstep) h
    · next hstep =>
      obtain ⟨hrem, htotal⟩ := typeTotal_eq_zero_of_tickSwap hs (by decide) active_of_fundType
        (by decide) h
      exact .waiting hop hstep hrem htotal
    · next hstep =>
      obtain ⟨hrem, htotal⟩ := typeTotal_eq_zero_of_tickSwap hs (by decide)
        unstakedToDeferred_of_fundType (by decide) h
      exact .unStaked hop hstep hrem htotal
    · next hstep =>
      obtain ⟨hrem, htotal⟩ := typeTotal_eq_zero_of_tickSwap hs (by decide)
        (deferredPayment_of_fundType nonce) (by decide) h
      exact .active hop hstep hrem htotal
  · next newServiceFee data hop => exact .inr (stuck_of_tickRewards (hop ▸ rfl) h)

/-! ### Chains of ticks -/

theorem Ticked.sound (h : Ticked nonce s s') (hs : s.FundsSound) : s'.FundsSound := by
  cases h with
  | activated _ _ hsw => exact hsw.sound
  | unstakedDeferred _ _ hsw => exact hsw.sound
  | activeDeferred _ _ hsw => exact hsw.sound
  | _ => exact hs

/-- The machine makes ticks of the list. -/
theorem ticks_of_reaches (hs : s.FundsSound) (h : Reaches (tick nonce) s s') :
    s'.FundsSound ∧ Relation.ReflTransGen (Ticked nonce) s s' := by
  induction h with
  | refl => exact ⟨hs, .refl⟩
  | tail _ htick ih =>
    have hticked := ticked_of_tick ih.1 htick
    exact ⟨hticked.sound ih.1, ih.2.tail hticked⟩

end Ledger

end Delegation
