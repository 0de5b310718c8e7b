import Delegation.Latest.CapChange

/-!
# Funds that belong to the users

`total_unprotected` is what the contract owns beyond the rewards that have not been sent and the
funds that are waiting, deferred or withdrawable. Only two calls look at it; all others may move
funds from the other side to the protected one without a check.

`Covered` is the invariant that makes up for that. It reserves, besides what is protected, what may
become protected unchecked: in bootstrap mode all active and unstaked funds, since replacing
unstaked funds then defers them unconditionally; and during a change of the cap what it has still to
defer, for which the check was made when the operation was opened.
-/

namespace Delegation

open Outcome FundStore

/-- What an operation has still to defer. -/
def GlobalOpCheckpoint.toDefer : GlobalOpCheckpoint → ℕ
  | .modifyTotalDelegationCap mdcapData =>
      mdcapData.remainingSwapUnstakedToDefP + mdcapData.remainingSwapActiveToDefP
  | .none | .changeServiceFee _ _ => 0

@[simp]
theorem GlobalOpCheckpoint.toDefer_withData (op : GlobalOpCheckpoint)
    (data : ComputeAllRewardsData) : (op.withData data).toDefer = op.toDefer := by
  cases op <;> rfl

/-- The types of the funds that are waiting, deferred or withdrawable. -/
def FundType.isOwed : FundType → Bool
  | .waiting | .deferredPayment | .withdrawOnly => true
  | .pendingAct | .active | .unStaked | .activeFailed => false

/-- The types of the funds that fill the cap. -/
def FundType.fillsCap : FundType → Bool
  | .active | .unStaked => true
  | .waiting | .deferredPayment | .withdrawOnly | .pendingAct | .activeFailed => false

namespace FundStore

variable {s s' : FundStore} {src dst : FundType} {moved : ℕ → ℕ} {amount : ℕ}

/-- The funds that are waiting, deferred or withdrawable. -/
def owed (s : FundStore) : ℕ :=
  s.typeTotal .waiting + s.typeTotal .deferredPayment + s.typeTotal .withdrawOnly

/-- The funds that fill the cap. -/
def filling (s : FundStore) : ℕ := s.typeTotal .active + s.typeTotal .unStaked

theorem Shift.owed (h : Shift s s' src dst moved amount) :
    s'.owed + (if src.isOwed then amount else 0) = s.owed + if dst.isOwed then amount else 0 := by
  have hwaiting := h.typeTotal .waiting
  have hdeferred := h.typeTotal .deferredPayment
  have hwithdrawOnly := h.typeTotal .withdrawOnly
  simp only [FundStore.owed]
  cases src <;> cases dst <;>
    simp only [reduceCtorEq, if_true, if_false, add_zero, FundType.isOwed, Bool.false_eq_true]
      at hwaiting hdeferred hwithdrawOnly ⊢ <;> omega

theorem Shift.filling (h : Shift s s' src dst moved amount) :
    s'.filling + (if src.fillsCap then amount else 0) =
      s.filling + if dst.fillsCap then amount else 0 := by
  have hactive := h.typeTotal .active
  have hunstaked := h.typeTotal .unStaked
  simp only [FundStore.filling]
  cases src <;> cases dst <;>
    simp only [reduceCtorEq, if_true, if_false, add_zero, FundType.fillsCap, Bool.false_eq_true]
      at hactive hunstaked ⊢ <;> omega

end FundStore

namespace Ledger

variable {s s' : Ledger} {env : Env} {e : Event} {nonce : UInt64}

/-- What may become protected without a check. -/
def reserved (s : Ledger) : ℕ :=
  if s.bootstrapMode then s.funds.filling else s.globalOpCheckpoint.toDefer

/-- The balance covers what is protected and what may become so. -/
def Covered (s : Ledger) : Prop :=
  s.cumulatedRewards + s.funds.owed + s.reserved ≤ s.balance + s.sentRewards

theorem totalUnprotected_eq_ok {unprotected : ℕ} : s.totalUnprotected = .ok unprotected ↔
    s.cumulatedRewards + s.funds.owed + unprotected = s.balance + s.sentRewards := by
  simp only [totalUnprotected, bind_eq_ok, bigSub_eq_ok, userStakeOfType_zero, FundStore.owed]
  constructor
  · rintro ⟨_, ⟨h₁, rfl⟩, _, ⟨h₂, rfl⟩, _, ⟨h₃, rfl⟩, h₄, rfl⟩
    omega
  · intro h
    exact ⟨_, ⟨by omega, rfl⟩, _, ⟨by omega, rfl⟩, _, ⟨by omega, rfl⟩, by omega, by omega⟩

/-- **Nothing underflows** in `total_unprotected`. -/
theorem Covered.totalUnprotected (h : s.Covered) :
    ∃ unprotected, s.totalUnprotected = .ok unprotected := by
  obtain ⟨rest, hrest⟩ := Nat.exists_eq_add_of_le h
  exact ⟨s.reserved + rest, totalUnprotected_eq_ok.mpr (by omega)⟩

/-! ### Acts -/

theorem Covered.of_eq (h : s.Covered) (hcum : s'.cumulatedRewards = s.cumulatedRewards)
    (howed : s'.funds.owed = s.funds.owed) (hreserved : s'.reserved = s.reserved)
    (hbalance : s.balance + s.sentRewards ≤ s'.balance + s'.sentRewards) : s'.Covered := by
  simp only [Covered, hcum, howed, hreserved] at h ⊢
  omega

/-- A replacement of unstaked funds by waiting ones. -/
theorem Rebalanced.covered {deferred activated : ℕ → ℕ} {toDeferred toActive : ℕ}
    (h : Rebalanced s s' deferred activated toDeferred toActive)
    (hop : s.globalOpCheckpoint = .none) (hcov : s.Covered) : s'.Covered := by
  have hactive := h.typeTotal .active
  have hunstaked := h.typeTotal .unStaked
  have hwaiting := h.typeTotal .waiting
  have hdeferred := h.typeTotal .deferredPayment
  have hwithdrawOnly := h.typeTotal .withdrawOnly
  simp only [reduceCtorEq, if_true, if_false, add_zero] at hactive hunstaked hwaiting
  simp only [reduceCtorEq, if_true, if_false, add_zero] at hdeferred hwithdrawOnly
  have hop' := h.ordinary.globalOpCheckpoint.trans hop
  have hcum := h.ordinary.cumulatedRewards
  have hbalance : s'.balance = s.balance := by rw [h.frame]
  have hsent : s'.sentRewards = s.sentRewards := by rw [h.frame]
  simp only [Covered, reserved, FundStore.owed, FundStore.filling, hop, hop', hcum, hbalance, hsent,
    GlobalOpCheckpoint.toDefer] at hcov ⊢
  cases hb : s.bootstrapMode with
  | false =>
    obtain ⟨hb', htoDeferred, htoActive⟩ := h.regular hb
    simp only [hb, hb', Bool.false_eq_true, if_false] at hcov ⊢
    omega
  | true =>
    -- whatever moves, waiting funds are covered before and active ones were reserved for
    simp only [hb, if_true] at hcov
    split_ifs <;> omega

theorem Deposited.owed {userId : ℕ} (h : Deposited s s' env userId) (hs : s.FundsSound) :
    s'.funds.owed = s.funds.owed + env.payment ∧ s'.funds.filling = s.funds.filling := by
  have htype := h.typeTotal hs
  simp only [FundStore.owed, FundStore.filling, htype, reduceCtorEq, if_true, if_false]
  omega

theorem Covered.staked (h : s.Covered) (hs : s.FundsSound)
    (hst : (s.credit env.payment).Staked env s') : s'.Covered := by
  obtain ⟨hop, hdep, -, hre⟩ := hst
  rename_i mid _ _ _ _ _
  have hop' := hdep.ordinary.globalOpCheckpoint.trans hop
  refine hre.covered hop' ?_
  obtain ⟨howed, hfilling⟩ := hdep.owed hs
  have hcum := hdep.ordinary.cumulatedRewards
  have hboot : mid.bootstrapMode = s.bootstrapMode := by rw [hdep.frame]; rfl
  have hbalance : mid.balance = s.balance + env.payment := by rw [hdep.frame]; rfl
  have hsent : mid.sentRewards = s.sentRewards := by rw [hdep.frame]; rfl
  have hops : mid.globalOpCheckpoint = s.globalOpCheckpoint := hdep.ordinary.globalOpCheckpoint
  simp only [credit_funds, credit_cumulatedRewards] at howed hfilling hcum
  simp only [Covered, reserved, howed, hfilling, hcum, hboot, hbalance, hsent, hops] at h ⊢
  omega

theorem Covered.unStaked {amount : ℕ} (h : s.Covered) (hun : s.UnStaked env amount s') :
    s'.Covered := by
  cases hun with
  | fromWaiting _ _ hsw =>
    have howed := hsw.shift.owed
    have hfilling := hsw.shift.filling
    simp only [FundType.isOwed, FundType.fillsCap, Bool.false_eq_true, if_true, if_false,
      add_zero] at howed hfilling
    refine h.of_eq rfl (by simp only; omega) ?_ le_rfl
    simp only [reserved, hfilling]
  | @fromActive funds₁ funds₂ _ _ _ _ _ _ _ _ mid _ hop _ hsw₁ hset hsw₂ _ _ _ _ _ hre =>
    have howed₁ := hsw₁.shift.owed
    have hfilling₁ := hsw₁.shift.filling
    have howed₂ := hsw₂.shift.owed
    have hfilling₂ := hsw₂.shift.filling
    simp only [FundType.isOwed, FundType.fillsCap, Bool.false_eq_true, if_true, if_false,
      add_zero] at howed₁ hfilling₁ howed₂ hfilling₂
    have hframe := hset.frame
    have hop' : ({ mid with funds := funds₂ } : Ledger).globalOpCheckpoint = .none := by
      simp only
      rw [hframe]
      exact hop
    refine hre.covered hop' (h.of_eq ?_ ?_ ?_ ?_)
    · simp only
      rw [hframe]
    · simp only
      omega
    · simp only [reserved]
      rw [hframe]
      simp only
      rw [show funds₂.filling = s.funds.filling by omega]
    · simp only
      rw [hframe]

theorem UnBonded.owed {paid : ℕ} (h : s.UnBonded env s' paid) :
    s'.funds.owed + paid = s.funds.owed := by
  obtain ⟨-, hsw, -, -, hpaid, -⟩ := h
  have howed := hsw.shift.owed
  have hwaiting := hpaid.typeTotal .waiting
  have hdeferred := hpaid.typeTotal .deferredPayment
  have hwithdrawOnly := hpaid.typeTotal .withdrawOnly
  simp only [reduceCtorEq, if_true, if_false, add_zero] at hwaiting hdeferred hwithdrawOnly
  simp only [FundType.isOwed, if_true, FundStore.owed] at howed ⊢
  omega

theorem Covered.unBonded {paid : ℕ} (h : s.Covered) (hun : s.UnBonded env s' paid) :
    s'.Covered := by
  have howed := hun.owed
  have hactive := hun.typeTotal_eq (t := .active) (by decide) (by decide)
  have hunstaked := hun.typeTotal_eq (t := .unStaked) (by decide) (by decide)
  have hfilling : s'.funds.filling = s.funds.filling := by
    rw [FundStore.filling, hactive, hunstaked, FundStore.filling]
  obtain ⟨-, -, -, -, -, hle⟩ := hun
  simp only at howed hfilling
  simp only [Covered, reserved, hfilling] at h ⊢
  omega

theorem Covered.claimed {claimed : ℕ} (h : s.Covered) (hcl : s.Claimed env s' claimed) :
    s'.Covered := by
  obtain ⟨-, -, -, hle⟩ := hcl
  exact h.of_eq rfl rfl rfl (by simp only [storeUserRewardData_balance,
    storeUserRewardData_sentRewards]; omega)

/-- A call that spends EGLD looks at what is unprotected, if it spends more than its payment. -/
theorem Covered.kept (h : s.Covered) (hk : (s.credit env.payment).Kept env s') : s'.Covered := by
  have hframe := hk.frame
  rcases hk.spent with hspent | ⟨hboot, hop, unprotected, hunp, hspent⟩
  · simp only [credit_balance] at hspent
    rw [hframe]
    refine h.of_eq rfl rfl rfl ?_
    simp only [credit_sentRewards]
    omega
  · rw [totalUnprotected_eq_ok] at hunp
    simp only [credit_balance, credit_sentRewards, credit_funds, credit_cumulatedRewards,
      credit_bootstrapMode, credit_globalOpCheckpoint] at hunp hspent hboot hop
    rw [hframe]
    simp only [Covered, reserved, credit_sentRewards, credit_funds, credit_cumulatedRewards,
      credit_bootstrapMode, credit_globalOpCheckpoint, hboot, hop, GlobalOpCheckpoint.toDefer]
    simp only [Bool.false_eq_true, if_false]
    omega

/-- A change of the cap defers no more than what is unprotected when it is opened. -/
theorem Covered.opened {op : Operation} {s₀ : Ledger} {orc : GlobalOpCheckpoint} (h : s.Covered)
    (hop : s.globalOpCheckpoint = .none) (ho : s.Opened op s₀ orc) : (s₀.withOp orc).Covered := by
  have hle : s.cumulatedRewards + s.funds.owed ≤ s.balance + s.sentRewards :=
    (Nat.le_add_right _ _).trans h
  simp only [Covered, reserved, hop] at h
  cases ho with
  | capStored hboot => simpa [Covered, reserved, hboot] using h
  | bootstrapEnded => simpa [Covered, reserved, GlobalOpCheckpoint.toDefer] using hle
  | capKept | feeKept => simpa [Covered, reserved] using h
  | feeStored _ hboot => simpa [Covered, reserved, hboot] using h
  | feeChange _ _ hboot =>
    simpa [Covered, reserved, hboot, GlobalOpCheckpoint.toDefer] using hle
  | capChange _ _ hplan =>
    cases hplan with
    | increase => simpa [Covered, reserved, GlobalOpCheckpoint.toDefer] using hle
    | decrease _ hunp hswap _ hadd =>
      rw [totalUnprotected_eq_ok] at hunp
      simp only [Covered, reserved, withOp_cumulatedRewards, withOp_funds, withOp_bootstrapMode,
        withOp_globalOpCheckpoint, withOp_balance, withOp_sentRewards, Bool.false_eq_true, if_false,
        GlobalOpCheckpoint.toDefer]
      omega

/-- **Acts keep the users' funds covered.** -/
theorem Covered.act (h : s.Covered) (hc : s.Consistent) (ha : s.Act e s')
    (he : e.cleansDust = false) : s'.Covered := by
  have hcredit : ∀ egld, (s.credit egld).Covered := fun egld =>
    h.of_eq rfl rfl rfl (by simp only [credit_balance, credit_sentRewards]; omega)
  cases ha with
  | answered egld => exact hcredit egld
  | received => exact hcredit _
  | continued => exact h
  | rewarded hboot =>
    simp only [Covered, reserved, arriveRewards_cumulatedRewards, arriveRewards_funds,
      arriveRewards_bootstrapMode, arriveRewards_globalOpCheckpoint, arriveRewards_balance,
      arriveRewards_sentRewards] at h ⊢
    omega
  | kept _ hk => exact h.kept hk
  | staked hst => exact h.staked hc.sound hst
  | unStaked _ hun => exact h.unStaked hun
  | unBonded _ hun => exact h.unBonded hun
  | claimed _ hcl => exact h.claimed hcl
  | operated _ hop _ hopened => exact h.opened hop hopened
  | waitingCleaned | activeCleaned => cases he

/-! ### Ticks -/

/-- What a tick defers was reserved. -/
theorem Covered.ticked (h : s.Covered) (hb : s.BooksKept) (ht : Ticked nonce s s') :
    s'.Covered := by
  have hboot := hb.bootstrapMode ht.ne_none
  simp only [Covered, reserved, hboot, Bool.false_eq_true, if_false] at h
  have hreserved : ∀ t : Ledger, t.bootstrapMode = false →
      t.cumulatedRewards + t.funds.owed + t.globalOpCheckpoint.toDefer ≤
        t.balance + t.sentRewards → t.Covered := fun t hboot hle => by
    simpa only [Covered, reserved, hboot, Bool.false_eq_true, if_false] using hle
  have hswapped : ∀ {funds : FundStore} {orc : GlobalOpCheckpoint},
      funds.owed + orc.toDefer ≤ s.funds.owed + s.globalOpCheckpoint.toDefer →
      ({ s with funds := funds }.withOp orc).Covered := fun {funds orc} hle => by
    refine hreserved _ hboot ?_
    simp only [withOp_cumulatedRewards, withOp_funds, withOp_balance, withOp_sentRewards,
      withOp_globalOpCheckpoint]
    omega
  cases ht with
  | restarted hop => exact hreserved _ hboot (by simpa using h)
  | settled hop => exact hreserved _ hboot (by simpa using h)
  | feeChanged hop =>
    rw [hop] at h
    exact hreserved _ hboot h
  | rewardsComputed hop =>
    rw [hop] at h
    exact hreserved _ hboot h
  | allActivated hop =>
    rw [hop] at h
    exact hreserved _ hboot h
  | allUnstakedDeferred hop =>
    rw [hop] at h
    exact hreserved _ hboot h
  | capChanged hop => exact hreserved _ hboot ((Nat.le_add_right _ _).trans h)
  | activated hop _ hsw hadd =>
    have howed := hsw.shift.owed
    simp only [FundType.isOwed, Bool.false_eq_true, if_true, if_false, add_zero] at howed
    refine hswapped ?_
    simp only [hop, GlobalOpCheckpoint.toDefer]
    omega
  | unstakedDeferred hop _ hsw hadd =>
    have howed := hsw.shift.owed
    simp only [FundType.isOwed, Bool.false_eq_true, if_true, if_false, add_zero] at howed
    refine hswapped ?_
    simp only [hop, GlobalOpCheckpoint.toDefer]
    omega
  | activeDeferred hop _ hsw hadd =>
    have howed := hsw.shift.owed
    simp only [FundType.isOwed, Bool.false_eq_true, if_true, if_false, add_zero] at howed
    refine hswapped ?_
    simp only [hop, GlobalOpCheckpoint.toDefer]
    omega

theorem covered_of_initial {w : World} (h : Initial w) : w.contract.ledger.Covered := by
  cases h with
  | init h =>
    obtain ⟨_, -, h⟩ := bind_eq_ok.mp h
    obtain ⟨_, -, h⟩ := bind_eq_ok.mp h
    cases h
    exact Nat.zero_le _

end Ledger

end Delegation
