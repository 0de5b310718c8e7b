import Delegation.Latest.CapInvariant

/-!
# Where a change of the cap stands

Outside bootstrap mode the active and the unstaked funds fill the cap, up to a gap that no call
changes. While the cap changes, the cap of before is stored until the last fund has been swapped; in
the meantime what the checkpoint has still to activate and to defer makes up for the difference to
the new one. `CapFilled` says both, and is kept by every act but a cleanup of dust, and by every
tick.

The gap is there because of one act only, which ends bootstrap mode and leaves the cap as it is.
-/

namespace Delegation

open Outcome FundStore

/-- The funds are being swapped: the rewards of all users have been computed. -/
def GlobalOpCheckpoint.swapping : GlobalOpCheckpoint → Bool
  | .modifyTotalDelegationCap mdcapData =>
      match mdcapData.step with
      | .computeAllRewards _ => false
      | .swapWaitingToActive | .swapUnstakedToDeferredPayment | .swapActiveToDeferredPayment => true
  | .none | .changeServiceFee _ _ => false

/-- The cap is being changed. -/
def GlobalOpCheckpoint.changesCap : GlobalOpCheckpoint → Bool
  | .modifyTotalDelegationCap _ => true
  | .none | .changeServiceFee _ _ => false

theorem GlobalOpCheckpoint.swapping_of_computing {op : GlobalOpCheckpoint}
    {data : ComputeAllRewardsData} (h : op.computing = some data) : op.swapping = false := by
  cases op with
  | none => rfl
  | changeServiceFee => rfl
  | modifyTotalDelegationCap mdcapData =>
    obtain ⟨newCap, remW, remA, remU, step⟩ := mdcapData
    cases step with
    | computeAllRewards => rfl
    | _ => cases h

namespace Ledger

variable {s s' : Ledger} {env : Env} {e : Event} {nonce : UInt64} {gap : ℕ}
  {mdcapData : ModifyTotalDelegationCapData}

/-- What is left to do in a change of the cap leads to the new cap. -/
structure Underway (s : Ledger) (mdcapData : ModifyTotalDelegationCapData) (gap : ℕ) : Prop where
  total : s.funds.typeTotal .active + s.funds.typeTotal .unStaked +
      mdcapData.remainingSwapWaitingToActive + gap =
    mdcapData.newDelegationCap + mdcapData.remainingSwapActiveToDefP +
      mdcapData.remainingSwapUnstakedToDefP
  activated : mdcapData.step = .swapUnstakedToDeferredPayment ∨
    mdcapData.step = .swapActiveToDeferredPayment → mdcapData.remainingSwapWaitingToActive = 0
  deferred : mdcapData.step = .swapActiveToDeferredPayment →
    mdcapData.remainingSwapUnstakedToDefP = 0

/-- Bootstrap mode is over, and the active and the unstaked funds fill the cap up to `gap`. When a
change of the cap ends bootstrap mode, the stored cap stays above them while it computes rewards. -/
structure CapFilled (s : Ledger) (gap : ℕ) : Prop where
  bootstrapMode : s.bootstrapMode = false
  le : s.globalOpCheckpoint.swapping = false →
    s.funds.typeTotal .active + s.funds.typeTotal .unStaked ≤ s.totalDelegationCap
  filled : s.globalOpCheckpoint.changesCap = false →
    s.funds.typeTotal .active + s.funds.typeTotal .unStaked + gap = s.totalDelegationCap
  underway : ∀ mdcapData, s.globalOpCheckpoint = .modifyTotalDelegationCap mdcapData →
    s.Underway mdcapData gap

/-- The rule of the cap in both modes. -/
def CapTracked (s : Ledger) : Prop :=
  s.bootstrapMode = true ∧
      s.funds.typeTotal .active + s.funds.typeTotal .unStaked ≤ s.totalDelegationCap ∨
    ∃ gap, s.CapFilled gap

/-- A call that ends bootstrap mode with the very cap that the funds make up, and does not store
it. -/
def DropsNewCap (s : Ledger) (e : Event) : Prop :=
  s.bootstrapMode = true ∧ s.maxAvailable ≠ s.totalDelegationCap ∧
    ∃ env, e = .transaction env (.modifyTotalDelegationCap s.maxAvailable)

/-! ### Acts -/

theorem Underway.of_eq (h : s.Underway mdcapData gap)
    (hsum : s'.funds.typeTotal .active + s'.funds.typeTotal .unStaked =
      s.funds.typeTotal .active + s.funds.typeTotal .unStaked) : s'.Underway mdcapData gap :=
  ⟨by rw [hsum]; exact h.total, h.activated, h.deferred⟩

theorem CapFilled.of_eq (h : s.CapFilled gap) (hboot : s'.bootstrapMode = s.bootstrapMode)
    (hop : s'.globalOpCheckpoint = s.globalOpCheckpoint)
    (hcap : s'.totalDelegationCap = s.totalDelegationCap)
    (hsum : s'.funds.typeTotal .active + s'.funds.typeTotal .unStaked =
      s.funds.typeTotal .active + s.funds.typeTotal .unStaked) : s'.CapFilled gap where
  bootstrapMode := hboot.trans h.bootstrapMode
  le hsw := by
    rw [hsum, hcap]
    exact h.le (hop ▸ hsw)
  filled hsw := by
    rw [hsum, hcap]
    exact h.filled (hop ▸ hsw)
  underway mdcapData hop' := (h.underway mdcapData (hop ▸ hop')).of_eq hsum

/-- Between operations there is nothing but the sum. -/
theorem capFilled_of_none (hb : s.bootstrapMode = false) (hop : s.globalOpCheckpoint = .none)
    (hsum : s.funds.typeTotal .active + s.funds.typeTotal .unStaked + gap =
      s.totalDelegationCap) : s.CapFilled gap :=
  ⟨hb, fun _ => by omega, fun _ => hsum, fun mdcapData hop' => by rw [hop] at hop'; cases hop'⟩

/-- A replacement outside bootstrap mode keeps the sum. -/
theorem Rebalanced.active_add_unStaked {deferred activated : ℕ → ℕ} {toDeferred toActive : ℕ}
    (h : Rebalanced s s' deferred activated toDeferred toActive) (hb : s.bootstrapMode = false) :
    s'.funds.typeTotal .active + s'.funds.typeTotal .unStaked =
      s.funds.typeTotal .active + s.funds.typeTotal .unStaked := by
  have hactive := h.typeTotal .active
  have hunstaked := h.typeTotal .unStaked
  simp only [reduceCtorEq, if_true, if_false, add_zero] at hactive hunstaked
  obtain ⟨-, hdeferred, htoActive⟩ := h.regular hb
  omega

theorem CapFilled.rebalanced {deferred activated : ℕ → ℕ} {toDeferred toActive : ℕ}
    (h : s.CapFilled gap) (hre : Rebalanced s s' deferred activated toDeferred toActive) :
    s'.CapFilled gap := by
  refine h.of_eq ?_ hre.ordinary.globalOpCheckpoint hre.ordinary.totalDelegationCap
    (hre.active_add_unStaked h.bootstrapMode)
  rw [(hre.regular h.bootstrapMode).1, h.bootstrapMode]

/-- A replacement in bootstrap mode stays under the cap, or fills it and ends bootstrap mode. -/
theorem Rebalanced.capTracked {deferred activated : ℕ → ℕ} {toDeferred toActive : ℕ}
    (h : Rebalanced s s' deferred activated toDeferred toActive) (hb : s.bootstrapMode = true)
    (hop : s.globalOpCheckpoint = .none) :
    s'.bootstrapMode = true ∧
      s'.funds.typeTotal .active + s'.funds.typeTotal .unStaked ≤ s'.totalDelegationCap ∨
    s'.CapFilled 0 := by
  have hactive := h.typeTotal .active
  have hunstaked := h.typeTotal .unStaked
  simp only [reduceCtorEq, if_true, if_false, add_zero] at hactive hunstaked
  obtain ⟨hdeferred, hle, -, hends⟩ := h.bootstrap hb
  have hcap := h.ordinary.totalDelegationCap
  cases hb' : s'.bootstrapMode with
  | true => exact .inl ⟨rfl, by omega⟩
  | false =>
    have := hends.mp hb'
    exact .inr (capFilled_of_none hb' (h.ordinary.globalOpCheckpoint.trans hop) (by omega))

theorem Deposited.active_add_unStaked {userId : ℕ} (h : Deposited s s' env userId)
    (hs : s.FundsSound) : s'.funds.typeTotal .active + s'.funds.typeTotal .unStaked =
      s.funds.typeTotal .active + s.funds.typeTotal .unStaked := by
  have hactive := h.typeTotal hs .active
  have hunstaked := h.typeTotal hs .unStaked
  rw [if_neg (by simp), add_zero] at hactive hunstaked
  rw [hactive, hunstaked]

/-- Between the two parts of `unStake` from active funds, these are unstaked. -/
theorem active_add_unStaked_of_swapped {funds₁ funds₂ : FundStore} {moved₁ moved₂ : ℕ → ℕ}
    {amount₁ amount₂ : ℕ} {users : ℕ → Prop} {g₁ g₂ : FundDescription → Option FundDescription}
    (hsw₁ : Swapped Relied s.funds funds₁ .waiting .withdrawOnly g₁ users moved₁ amount₁)
    (hsw₂ : Swapped Relied funds₁ funds₂ .active .unStaked g₂ users moved₂ amount₂) :
    funds₂.typeTotal .active + funds₂.typeTotal .unStaked =
      s.funds.typeTotal .active + s.funds.typeTotal .unStaked := by
  have hactive₁ := hsw₁.shift.typeTotal .active
  have hunstaked₁ := hsw₁.shift.typeTotal .unStaked
  have hactive₂ := hsw₂.shift.typeTotal .active
  have hunstaked₂ := hsw₂.shift.typeTotal .unStaked
  simp only [reduceCtorEq, if_true, if_false, add_zero] at hactive₁ hunstaked₁ hactive₂ hunstaked₂
  omega

/-- Opening an operation leaves the funds alone; a change of the cap plans from the cap there is. -/
theorem CapFilled.opened {op : Operation} {s₀ : Ledger} {orc : GlobalOpCheckpoint}
    (h : s.CapFilled gap) (hop : s.globalOpCheckpoint = .none) (ho : s.Opened op s₀ orc) :
    (s₀.withOp orc).CapFilled gap := by
  have hb := h.bootstrapMode
  have hle := h.le (by rw [hop]; rfl)
  have hfilled := h.filled (by rw [hop]; rfl)
  have hregular : ∀ {P : Prop}, s.bootstrapMode = true → P := fun hb' => by
    rw [hb] at hb'
    cases hb'
  cases ho with
  | capStored hboot => exact hregular hboot
  | bootstrapEnded hboot => exact hregular hboot
  | feeStored _ hboot => exact hregular hboot
  | capKept | feeKept | feeChange => exact ⟨hb, fun _ => hle, fun _ => hfilled, nofun⟩
  | capChange hprevious _ hplan =>
    rw [if_neg (by simp [hb])] at hprevious
    subst hprevious
    refine ⟨rfl, fun _ => hle, nofun, fun d hd => ?_⟩
    cases hd
    cases hplan with
    | increase hlt => exact ⟨by simp only [withOp_funds]; omega, by simp, by simp⟩
    | decrease hlt _ _ _ hadd => exact ⟨by simp only [withOp_funds]; omega, by simp, by simp⟩

/-- **Acts keep the gap**, once bootstrap mode is over. -/
theorem CapFilled.act (h : s.CapFilled gap) (hs : s.FundsSound) (ha : s.Act e s')
    (he : e.cleansDust = false) : s'.CapFilled gap := by
  have hcredit : ∀ egld, (s.credit egld).CapFilled gap := fun egld => h.of_eq rfl rfl rfl rfl
  cases ha with
  | answered egld => exact hcredit egld
  | received => exact hcredit _
  | rewarded | continued => exact h.of_eq rfl rfl rfl rfl
  | kept _ hk =>
    rw [hk.frame]
    exact h.of_eq rfl rfl rfl rfl
  | staked hst =>
    obtain ⟨-, hdep, -, hre⟩ := hst
    refine ((hcredit _).of_eq ?_ hdep.ordinary.globalOpCheckpoint
      hdep.ordinary.totalDelegationCap (hdep.active_add_unStaked hs)).rebalanced hre
    rw [hdep.frame]
  | unStaked _ hun =>
    cases hun with
    | fromWaiting _ _ hsw =>
      have hactive := hsw.shift.typeTotal .active
      have hunstaked := hsw.shift.typeTotal .unStaked
      simp only [reduceCtorEq, if_false, add_zero] at hactive hunstaked
      exact h.of_eq rfl rfl rfl (by simp only; omega)
    | @fromActive funds₁ funds₂ _ _ _ _ _ _ _ _ mid _ _ _ hsw₁ hset hsw₂ _ _ _ _ _ hre =>
      refine CapFilled.rebalanced (s := { mid with funds := funds₂ }) ?_ hre
      have hord := hset.ordinary
      refine h.of_eq ?_ hord.globalOpCheckpoint hord.totalDelegationCap
        (active_add_unStaked_of_swapped hsw₁ hsw₂)
      change mid.bootstrapMode = _
      rw [hset.frame]
  | unBonded _ hun =>
    have hactive := hun.typeTotal_eq (t := .active) (by decide) (by decide)
    have hunstaked := hun.typeTotal_eq (t := .unStaked) (by decide) (by decide)
    have hord := hun.ordinary
    refine h.of_eq ?_ hord.globalOpCheckpoint hord.totalDelegationCap (by rw [hactive, hunstaked])
    obtain ⟨-, -, -, -, -, -⟩ := hun
    rfl
  | claimed _ hcl =>
    obtain ⟨-, -, -, -⟩ := hcl
    exact h.of_eq rfl rfl rfl rfl
  | operated _ hop _ hopened => exact h.opened hop hopened
  | waitingCleaned | activeCleaned => cases he

/-- **Acts in bootstrap mode** stay under the cap, or end bootstrap mode with the cap filled; the
exception is a call that drops the new cap. -/
theorem Act.capTracked (hc : s.Consistent) (hone : s.OneSided) (hb : s.bootstrapMode = true)
    (hle : s.funds.typeTotal .active + s.funds.typeTotal .unStaked ≤ s.totalDelegationCap)
    (ha : s.Act e s') (he : e.cleansDust = false) :
    s'.bootstrapMode = true ∧
        s'.funds.typeTotal .active + s'.funds.typeTotal .unStaked ≤ s'.totalDelegationCap ∨
      ∃ gap, s'.CapFilled gap ∧ (gap = 0 ∨ s.DropsNewCap e) := by
  have hop := (hc.books.bootstrap hb).2
  have hrebalanced : ∀ {mid s' : Ledger} {deferred activated : ℕ → ℕ} {toDeferred toActive : ℕ},
      Rebalanced mid s' deferred activated toDeferred toActive → mid.bootstrapMode = true →
      mid.globalOpCheckpoint = .none → s'.bootstrapMode = true ∧
        s'.funds.typeTotal .active + s'.funds.typeTotal .unStaked ≤ s'.totalDelegationCap ∨
      ∃ gap, s'.CapFilled gap ∧ (gap = 0 ∨ s.DropsNewCap e) := fun hre hmid hop =>
    (hre.capTracked hmid hop).imp_right fun hfilled => ⟨0, hfilled, .inl rfl⟩
  cases ha with
  | answered | received | rewarded | continued => exact .inl ⟨hb, hle⟩
  | kept _ hk =>
    rw [hk.frame]
    exact .inl ⟨hb, hle⟩
  | staked hst =>
    obtain ⟨-, hdep, -, hre⟩ := hst
    refine hrebalanced hre ?_ (hdep.ordinary.globalOpCheckpoint.trans hop)
    rw [hdep.frame]
    exact hb
  | unStaked _ hun =>
    cases hun with
    | fromWaiting _ _ hsw =>
      have hactive := hsw.shift.typeTotal .active
      have hunstaked := hsw.shift.typeTotal .unStaked
      simp only [reduceCtorEq, if_false, add_zero] at hactive hunstaked
      exact .inl ⟨hb, by simp only; omega⟩
    | @fromActive _ _ _ _ _ _ _ _ _ _ mid _ _ _ _ hset _ _ _ _ _ _ hre =>
      refine hrebalanced hre ?_ (hset.ordinary.globalOpCheckpoint.trans hop)
      change mid.bootstrapMode = true
      rw [hset.frame]
      exact hb
  | unBonded _ hun =>
    have hactive := hun.typeTotal_eq (t := .active) (by decide) (by decide)
    have hunstaked := hun.typeTotal_eq (t := .unStaked) (by decide) (by decide)
    obtain ⟨-, -, -, -, -, -⟩ := hun
    exact .inl ⟨hb, by simp only at hactive hunstaked ⊢; omega⟩
  | claimed _ hcl =>
    obtain ⟨-, -, -, -⟩ := hcl
    exact .inl ⟨hb, hle⟩
  | operated _ _ _ hopened =>
    obtain ⟨hwaiting, hunstaked⟩ := hone.bootstrap hb
    cases hopened with
    | capStored hboot hlt =>
      refine .inl ⟨hb, ?_⟩
      simp only [maxAvailable, userStakeOfType_zero] at hlt
      simp only [withOp_funds, withOp_totalDelegationCap]
      omega
    | bootstrapEnded =>
      obtain ⟨gap, hgap⟩ := Nat.exists_eq_add_of_le hle
      refine .inr ⟨gap, capFilled_of_none rfl rfl hgap.symm, ?_⟩
      by_cases hstored : s.maxAvailable = s.totalDelegationCap
      · simp only [maxAvailable, userStakeOfType_zero] at hstored
        exact .inl (by omega)
      · exact .inr ⟨hb, hstored, _, rfl⟩
    | capKept hboot => rw [hboot] at hb; cases hb
    | feeKept => exact .inl ⟨hb, hle⟩
    | feeStored => exact .inl ⟨hb, hle⟩
    | feeChange _ _ hboot => rw [hboot] at hb; cases hb
    | capChange hprevious hmax hplan =>
      -- what the funds make up counts as the previous cap, so the plan is exact
      rw [if_pos hb] at hprevious
      simp only [maxAvailable, userStakeOfType_zero] at hprevious hmax
      refine .inr ⟨0, ⟨rfl, fun _ => hle, nofun, fun d hd => ?_⟩, .inl rfl⟩
      cases hd
      cases hplan with
      | increase hlt => omega
      | decrease hlt _ _ _ hadd => exact ⟨by simp only [withOp_funds]; omega, by simp, by simp⟩
  | waitingCleaned | activeCleaned => cases he

/-! ### Ticks -/

theorem Underway.with_step (h : s.Underway mdcapData gap) (step : ModifyDelegationCapStep)
    (hactivated : step = .swapUnstakedToDeferredPayment ∨ step = .swapActiveToDeferredPayment →
      mdcapData.remainingSwapWaitingToActive = 0)
    (hdeferred : step = .swapActiveToDeferredPayment → mdcapData.remainingSwapUnstakedToDefP = 0) :
    s.Underway { mdcapData with step := step } gap :=
  ⟨h.total, hactivated, hdeferred⟩

/-- A tick that computes rewards. -/
theorem CapFilled.computing {data data' : ComputeAllRewardsData} (h : s.CapFilled gap)
    (hop : s.globalOpCheckpoint.computing = some data) :
    (s.withOp (s.globalOpCheckpoint.withData data')).CapFilled gap := by
  have hle := h.le (GlobalOpCheckpoint.swapping_of_computing hop)
  refine ⟨h.bootstrapMode, fun _ => hle, fun hno => ?_, fun d hd => ?_⟩
  · refine h.filled ?_
    generalize s.globalOpCheckpoint = op at hno hop
    cases op with
    | modifyTotalDelegationCap => cases hno
    | _ => rfl
  · simp only [withOp_globalOpCheckpoint] at hd
    cases hop' : s.globalOpCheckpoint with
    | none => rw [hop'] at hd; cases hd
    | changeServiceFee => rw [hop'] at hd; cases hd
    | modifyTotalDelegationCap mdcapData =>
      rw [hop'] at hd
      cases hd
      exact ((h.underway _ hop').with_step (.computeAllRewards data') (by simp) (by simp)).of_eq rfl

/-- **Ticks keep the gap.** -/
theorem CapFilled.ticked (h : s.CapFilled gap) (ht : Ticked nonce s s') : s'.CapFilled gap := by
  have hb := h.bootstrapMode
  cases ht with
  | restarted hop => exact h.computing hop
  | settled hop => exact (h.computing hop).of_eq rfl rfl rfl rfl
  | feeChanged hop =>
    have hfilled := h.filled (by rw [hop]; rfl)
    exact capFilled_of_none hb rfl hfilled
  | rewardsComputed hop =>
    refine ⟨hb, nofun, nofun, fun d hd => ?_⟩
    cases hd
    exact ((h.underway _ hop).with_step .swapWaitingToActive (by simp) (by simp)).of_eq rfl
  | allActivated hop _ hrem =>
    refine ⟨hb, nofun, nofun, fun d hd => ?_⟩
    cases hd
    exact ((h.underway _ hop).with_step .swapUnstakedToDeferredPayment (fun _ => hrem)
      (by simp)).of_eq rfl
  | allUnstakedDeferred hop hstep hrem =>
    refine ⟨hb, nofun, nofun, fun d hd => ?_⟩
    cases hd
    have hactivated := (h.underway _ hop).activated (.inl hstep)
    exact ((h.underway _ hop).with_step .swapActiveToDeferredPayment (fun _ => hactivated)
      fun _ => hrem).of_eq rfl
  | activated hop hstep hsw hadd =>
    have htotal := (h.underway _ hop).total
    have hactive := hsw.shift.typeTotal .active
    have hunstaked := hsw.shift.typeTotal .unStaked
    simp only [reduceCtorEq, if_true, if_false, add_zero] at hactive hunstaked
    refine ⟨hb, fun hno => ?_, nofun, fun d hd => ?_⟩
    · simp [GlobalOpCheckpoint.swapping, hstep] at hno
    · cases hd
      exact ⟨by simp only [withOp_funds]; omega, by simp [hstep], by simp [hstep]⟩
  | unstakedDeferred hop hstep hsw hadd =>
    obtain ⟨htotal, hactivated, -⟩ := h.underway _ hop
    have hactive := hsw.shift.typeTotal .active
    have hunstaked := hsw.shift.typeTotal .unStaked
    simp only [reduceCtorEq, if_true, if_false, add_zero] at hactive hunstaked
    refine ⟨hb, fun hno => ?_, nofun, fun d hd => ?_⟩
    · simp [GlobalOpCheckpoint.swapping, hstep] at hno
    · cases hd
      exact ⟨by simp only [withOp_funds]; omega, hactivated, by simp [hstep]⟩
  | activeDeferred hop hstep hsw hadd =>
    obtain ⟨htotal, hactivated, hdeferred⟩ := h.underway _ hop
    have hactive := hsw.shift.typeTotal .active
    have hunstaked := hsw.shift.typeTotal .unStaked
    simp only [reduceCtorEq, if_true, if_false, add_zero] at hactive hunstaked
    refine ⟨hb, fun hno => ?_, nofun, fun d hd => ?_⟩
    · simp [GlobalOpCheckpoint.swapping, hstep] at hno
    · cases hd
      exact ⟨by simp only [withOp_funds]; omega, hactivated, hdeferred⟩
  | capChanged hop hstep hrem =>
    -- nothing is left to activate or to defer, so the funds fill the new cap
    obtain ⟨htotal, hactivated, hdeferred⟩ := h.underway _ hop
    rw [hactivated (.inr hstep), hdeferred hstep, hrem] at htotal
    exact capFilled_of_none hb rfl htotal

theorem CapTracked.act (hc : s.Consistent) (hone : s.OneSided) (h : s.CapTracked)
    (ha : s.Act e s') (he : e.cleansDust = false) : s'.CapTracked := by
  rcases h with ⟨hb, hle⟩ | ⟨gap, hfilled⟩
  · exact (ha.capTracked hc hone hb hle he).imp_right fun ⟨gap, hfilled, _⟩ => ⟨gap, hfilled⟩
  · exact .inr ⟨gap, hfilled.act hc.sound ha he⟩

theorem CapTracked.ticked (hb : s.BooksKept) (h : s.CapTracked) (ht : Ticked nonce s s') :
    s'.CapTracked := by
  rcases h with ⟨hboot, -⟩ | ⟨gap, hfilled⟩
  · exact absurd (hb.bootstrap hboot).2 ht.ne_none
  · exact .inr ⟨gap, hfilled.ticked ht⟩

theorem capTracked_of_initial {w : World} (h : Initial w) : w.contract.ledger.CapTracked := by
  cases h with
  | init h =>
    obtain ⟨_, -, h⟩ := bind_eq_ok.mp h
    obtain ⟨_, -, h⟩ := bind_eq_ok.mp h
    cases h
    exact .inl ⟨rfl, Nat.zero_le _⟩

/-- Unless funds are being swapped, the rewards of every user can be computed. -/
theorem CapTracked.steady (h : s.CapTracked) (hc : s.Consistent)
    (hno : s.globalOpCheckpoint.swapping = false) : s.Steady where
  sound := hc.sound
  checkpoint_le := hc.books.checkpoint_le
  serviceFee_le := hc.books.serviceFee_le
  active_le := by
    rcases h with ⟨-, hle⟩ | ⟨gap, hfilled⟩
    · omega
    · have := hfilled.le hno
      omega

end Ledger

end Delegation
