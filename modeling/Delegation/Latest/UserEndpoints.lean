import Delegation.Latest.Rebalance

/-!
# What the endpoints of the delegators do

One description of the effect for each of `stake`, `unStake`, `unBond` and `claimRewards`: which
funds move, whose rewards are computed before, and what is paid. The invariants of the contract are
derived from these descriptions, and so is `Neutral` for every user, the caller included.
-/

namespace Delegation

open Outcome

namespace Ledger

variable {s s' s'' : Ledger} {env : Env} {u : ℕ}

/-- What `validateDelegationCapInvariant` checks. -/
def CapInvariant (s : Ledger) : Prop :=
  if s.bootstrapMode then
    s.funds.typeTotal .active + s.funds.typeTotal .unStaked < s.totalDelegationCap
  else s.funds.typeTotal .active + s.funds.typeTotal .unStaked = s.totalDelegationCap

theorem validateDelegationCapInvariant_eq_ok :
    s.validateDelegationCapInvariant = .ok () ↔ s.CapInvariant := by
  simp only [validateDelegationCapInvariant, CapInvariant, userStakeOfType_zero]
  split_ifs <;> exact require_eq_ok

theorem validateDelegationCapInvariant_spec (s : Ledger) :
    Spec s.validateDelegationCapInvariant (fun _ => s.CapInvariant)
      (fun e => e = .scPanic "delegation cap invariant violated" ∧ ¬ s.CapInvariant) := by
  refine Spec.intro (fun _ h => validateDelegationCapInvariant_eq_ok.mp h) fun e he => ⟨?_, ?_⟩
  · simp only [validateDelegationCapInvariant, require] at he
    split_ifs at he <;> cases he <;> rfl
  · rw [← validateDelegationCapInvariant_eq_ok, he]
    exact fun h => by cases h

theorem globalOpCheckpoint_eq_none (h : s.isGlobalOpInProgress = false) :
    s.globalOpCheckpoint = .none := by
  simpa [isGlobalOpInProgress] using h

/-! ### `stake` -/

/-- The caller has an id, a new one or the one it had, and the payment waits under it. -/
structure Deposited (s s' : Ledger) (env : Env) (userId : ℕ) : Prop where
  frame : s' = { s with
    userId := s'.userId
    userAddress := s'.userAddress
    numUsers := s'.numUsers
    funds := s.funds.createWaiting env.blockNonce userId env.payment }
  userId_eq : s'.userId env.caller = userId
  userId_ne : userId ≠ 0
  others : ∀ a, a ≠ env.caller → s'.userId a = s.userId a
  numUsers : s.userId env.caller = 0 ∧ userId = s.numUsers + 1 ∧ s'.numUsers = s.numUsers + 1 ∨
    s.userId env.caller = userId ∧ s'.numUsers = s.numUsers

theorem deposited_getOrCreateUser (s : Ledger) (env : Env) :
    Deposited s
      { (s.getOrCreateUser env.caller).1 with
        funds := (s.getOrCreateUser env.caller).1.funds.createWaiting env.blockNonce
          (s.getOrCreateUser env.caller).2 env.payment }
      env (s.getOrCreateUser env.caller).2 := by
  simp only [getOrCreateUser]
  split_ifs with h0 haddr
  · exact ⟨rfl, by simp, by simp, fun a ha => by simp [ha], .inl ⟨h0, rfl, rfl⟩⟩
  · exact ⟨rfl, rfl, h0, fun _ _ => rfl, .inr ⟨rfl, rfl⟩⟩
  · exact ⟨rfl, rfl, h0, fun _ _ => rfl, .inr ⟨rfl, rfl⟩⟩

namespace Deposited

variable {userId : ℕ} (h : Deposited s s' env userId)

include h

theorem funds : s'.funds = s.funds.createWaiting env.blockNonce userId env.payment :=
  congrArg Ledger.funds h.frame

theorem sound (hs : s.FundsSound) : s'.FundsSound := by
  unfold FundsSound
  rw [h.funds]
  exact (FundStore.Sound.createWaiting hs env.blockNonce userId env.payment).1

theorem evolves (hs : s.FundsSound) : FundStore.Evolves s.funds s'.funds := by
  rw [h.funds]
  exact (FundStore.Sound.createWaiting hs env.blockNonce userId env.payment).2.1

theorem typeTotal (hs : s.FundsSound) (t : FundType) :
    s'.funds.typeTotal t = s.funds.typeTotal t + if t = .waiting then env.payment else 0 := by
  rw [h.funds]
  exact (FundStore.Sound.createWaiting hs env.blockNonce userId env.payment).2.2.1 t

theorem userTotal (hs : s.FundsSound) (v : ℕ) (t : FundType) :
    s'.funds.userTotal v t =
      s.funds.userTotal v t + if (v, t) = (userId, .waiting) then env.payment else 0 := by
  rw [h.funds]
  exact (FundStore.Sound.createWaiting hs env.blockNonce userId env.payment).2.2.2 v t

theorem loadUserRewardData (u : ℕ) : s'.loadUserRewardData u = s.loadUserRewardData u := by
  rw [h.frame]
  rfl

theorem rewardTerms (hs : s.FundsSound) (hu : u ≠ 0) : s'.rewardTerms u = s.rewardTerms u := by
  have htype := h.typeTotal hs .active
  have huser := h.userTotal hs u .active
  rw [if_neg (by simp), add_zero] at htype huser
  simp only [Ledger.rewardTerms, userStakeOfType_of_ne hu, userStakeOfType_zero, htype, huser]
  rw [h.frame]

theorem steady (hs : s.Steady) : s'.Steady := by
  have hactive := h.typeTotal hs.sound .active
  rw [if_neg (by simp), add_zero] at hactive
  refine ⟨h.sound hs.sound, ?_, ?_, hactive.trans_le ?_⟩ <;> rw [h.frame]
  · exact hs.checkpoint_le
  · exact hs.serviceFee_le
  · exact hs.active_le

end Deposited

/-- A stake enters the waiting list, and then waiting funds replace unstaked ones. -/
inductive Staked (s : Ledger) (env : Env) : Ledger → Prop
  | intro {s₁ s' : Ledger} {userId : ℕ} {deferred activated : ℕ → ℕ} {toDeferred toActive : ℕ}
      (hop : s.globalOpCheckpoint = .none) (hdep : Deposited s s₁ env userId)
      (hcap : s₁.CapInvariant)
      (hre : Rebalanced s₁ s' deferred activated toDeferred toActive) : Staked s env s'

/-- The cap invariant does not look at waiting funds. -/
theorem Deposited.capInvariant {userId : ℕ} (h : Deposited s s' env userId) (hs : s.FundsSound) :
    s'.CapInvariant ↔ s.CapInvariant := by
  have hactive := h.typeTotal hs .active
  have hunstaked := h.typeTotal hs .unStaked
  rw [if_neg (by simp), add_zero] at hactive hunstaked
  simp only [CapInvariant, hactive, hunstaked]
  rw [h.frame]

theorem stake_spec (h : s.FundsSound) (env : Env) :
    Spec (s.stake env) (s.Staked env) fun e =>
      s.Fails ["contract paused", "cannot stake less than minimum stake",
        "staking is temporarily paused as checkpoint is reset", "bad user_id"] e ∨
      e = .scPanic "delegation cap invariant violated" ∧ ¬ s.CapInvariant := by
  refine Spec.bind (spec_require fun _ => .inl (s.fails_scPanic (by simp))) fun _ _ => ?_
  refine Spec.bind (spec_require fun _ => .inl (s.fails_scPanic (by simp))) fun _ _ => ?_
  refine Spec.bind (spec_require fun _ => .inl (s.fails_scPanic (by simp))) fun _ hop => ?_
  have hdep := s.deposited_getOrCreateUser env
  simp only [processStake]
  refine Spec.bind ((validateDelegationCapInvariant_spec _).mono (fun _ hc => hc)
    fun e ⟨he, hnot⟩ => .inr ⟨he, mt (hdep.capInvariant h).mpr hnot⟩) fun _ hc => ?_
  refine (useWaitingToReplaceUnstaked_spec (hdep.sound h)).mono (fun s' hs' => ?_)
    fun e he => .inl (he.mono (by simp) hdep.steady)
  obtain ⟨deferred, activated, toDeferred, toActive, hre⟩ := hs'
  exact .intro (globalOpCheckpoint_eq_none hop) hdep hc hre

/-- In bootstrap mode, where there are no rewards, every checkpoint is up to date. -/
def UpToDateInBootstrap (s : Ledger) : Prop :=
  s.bootstrapMode = true → ∀ u, s.userRewCheckpoint u = s.cumulatedRewards

/-- **A stake is neutral for every user.** -/
theorem Staked.neutral (h : s.FundsSound) (hs : s.Staked env s') (hboot : s.UpToDateInBootstrap)
    (hu : u ≠ 0) : Neutral s s' u := by
  obtain ⟨hop, hdep, hcap, hre⟩ := hs
  refine Neutral.trans (.inl ⟨hdep.loadUserRewardData u, hdep.rewardTerms h hu⟩)
    (hre.neutral ?_ u hu)
  rw [hdep.frame]
  exact hboot

/-! ### `unStake` -/

/-- Waiting funds of the caller become withdrawable; if they do not cover the amount, the rest is
unstaked after the rewards of the owner and of the caller are computed. -/
inductive UnStaked (s : Ledger) (env : Env) (amount : ℕ) : Ledger → Prop
  | fromWaiting {funds : FundStore} {moved : ℕ → ℕ} (hop : s.globalOpCheckpoint = .none)
      (hid : s.userId env.caller ≠ 0)
      (hsw : FundStore.Swapped Relied s.funds funds .waiting .withdrawOnly
        (fun _ => some .withdrawOnly) (· = s.userId env.caller) moved amount)
      (hmoved : moved (s.userId env.caller) = amount) :
      UnStaked s env amount { s with funds := funds }
  | fromActive {funds₁ funds₂ : FundStore} {moved₁ moved₂ deferred activated : ℕ → ℕ}
      {amount₁ amount₂ toDeferred toActive : ℕ} {mid s' : Ledger}
      (hop : s.globalOpCheckpoint = .none) (hid : s.userId env.caller ≠ 0)
      (hsw₁ : FundStore.Swapped Relied s.funds funds₁ .waiting .withdrawOnly
        (fun _ => some .withdrawOnly) (· = s.userId env.caller) moved₁ amount₁)
      (hset : Settled { s with funds := funds₁ } mid
        fun u => u = ownerUserId ∨ u = s.userId env.caller)
      (hsw₂ : FundStore.Swapped Relied funds₁ funds₂ .active .unStaked
        (fun _ => some (.unStaked env.blockNonce)) (· = s.userId env.caller) moved₂ amount₂)
      (hmoved₁ : moved₁ (s.userId env.caller) = amount₁)
      (hmoved₂ : moved₂ (s.userId env.caller) = amount₂)
      (hall : amount₁ = s.funds.userTotal (s.userId env.caller) .waiting)
      (hadd : amount₁ + amount₂ = amount) (hpos : 0 < amount₂)
      (hre : Rebalanced { mid with funds := funds₂ } s' deferred activated toDeferred toActive) :
      UnStaked s env amount s'

/-- A swap that leaves active funds alone leaves the terms alone. -/
theorem rewardTerms_of_swapped {funds : FundStore} {src dst : FundType} {users : ℕ → Prop}
    {g : FundDescription → Option FundDescription} {moved : ℕ → ℕ} {amount : ℕ}
    (h : FundStore.Swapped Relied s.funds funds src dst g users moved amount)
    (hsrc : src ≠ .active) (hdst : dst ≠ .active) (hu : u ≠ 0) :
    { s with funds := funds }.rewardTerms u = s.rewardTerms u := by
  have htype := h.shift.typeTotal .active
  have huser := h.shift.userTotal u .active
  rw [if_neg hsrc.symm, if_neg hdst.symm, add_zero, add_zero] at htype huser
  simp only [rewardTerms, userStakeOfType_of_ne hu, userStakeOfType_zero, htype, huser]

theorem Steady.of_funds {funds : FundStore} (h : s.Steady) (hsound : FundStore.Sound Relied funds)
    (hle : funds.typeTotal .active ≤ s.funds.typeTotal .active) :
    { s with funds := funds }.Steady :=
  ⟨hsound, h.checkpoint_le, h.serviceFee_le, hle.trans h.active_le⟩

/-- The checks of `unStake` that are meant to refuse a request. -/
def unStakeRefusals : List String :=
  ["contract paused", "unstaking is temporarily paused as checkpoint is reset",
    "only delegators can unstake", "cannot unstake more than the user waiting + active stake",
    "cannot unstake less than minimum stake",
    "cannot have waiting + active stake less than minimum stake", "bad user_id"]

theorem validateUnstakeAmount_spec (s : Ledger) (userId amount : ℕ) :
    Spec (s.validateUnstakeAmount userId amount)
      (fun _ => amount ≤ s.userStakeOfType userId .waiting + s.userStakeOfType userId .active)
      (s.Fails unStakeRefusals) := by
  simp only [validateUnstakeAmount]
  split_ifs with hlt heq
  · exact s.fails_scPanic (by simp [unStakeRefusals])
  · exact heq.le
  · exact (spec_require fun _ => s.fails_scPanic (by simp [unStakeRefusals])).imp
      fun _ _ => not_lt.mp hlt

theorem unStake_spec (h : s.FundsSound) (env : Env) (amount : ℕ) :
    Spec (s.unStake env amount) (s.UnStaked env amount) (s.Fails unStakeRefusals) := by
  have hrefuse : ∀ msg ∈ unStakeRefusals, s.Fails unStakeRefusals (.scPanic msg) :=
    fun msg hmsg => s.fails_scPanic hmsg
  refine Spec.bind (spec_require fun _ => hrefuse _ (by simp [unStakeRefusals])) fun _ _ => ?_
  refine Spec.bind (spec_require fun _ => hrefuse _ (by simp [unStakeRefusals])) fun _ hop => ?_
  refine Spec.bind (spec_require fun _ => hrefuse _ (by simp [unStakeRefusals])) fun _ hid => ?_
  refine Spec.bind (s.validateUnstakeAmount_spec _ amount) fun _ hamount => ?_
  have hop' := globalOpCheckpoint_eq_none hop
  refine Spec.bind ((FundStore.Sound.swapUserWaitingToWithdrawOnly h (by decide)
    (s.userId env.caller) amount env.fuel).mono (fun _ hr => hr)
    fun _ he => s.fails_outOfGas _ he) fun r hr => ?_
  obtain ⟨funds₁, rest₁⟩ := r
  obtain ⟨moved₁, amount₁, hsw₁, hmoved₁, hadd₁, hex₁⟩ := hr
  simp only at hsw₁ hadd₁ hex₁ ⊢
  split_ifs with hrest
  · have heq : amount₁ = amount := by omega
    subst heq
    exact .fromWaiting hop' hid hsw₁ hmoved₁
  have hactive₁ := hsw₁.shift.typeTotal .active
  simp only [reduceCtorEq, if_false, add_zero] at hactive₁
  have hsteady : s.Steady → { s with funds := funds₁ }.Steady := fun hs =>
    hs.of_funds hsw₁.sound hactive₁.le
  refine Spec.bind ((computeOneUserReward_spec _ ownerUserId).mono (fun _ h => h)
    fun e he => he.mono (by simp) hsteady) fun mid₁ hset₁ => ?_
  refine Spec.bind ((mid₁.computeOneUserReward_spec (s.userId env.caller)).mono (fun _ h => h)
    fun e he => he.mono (by simp) fun hs => hset₁.steady (hsteady hs)) fun mid hset₂ => ?_
  have hset := hset₁.trans hset₂
  have hfunds : mid.funds = funds₁ := hset.funds
  have hmid : FundStore.Sound Relied mid.funds := by
    rw [hfunds]
    exact hsw₁.sound
  refine Spec.bind ((FundStore.Sound.swapUserActiveToUnstaked hmid (by decide) env.blockNonce
    (s.userId env.caller) rest₁ env.fuel).mono (fun _ hr => hr)
    fun _ he => s.fails_outOfGas _ he) fun r hr => ?_
  obtain ⟨funds₂, rest₂⟩ := r
  obtain ⟨moved₂, amount₂, hsw₂, hmoved₂, hadd₂, hex₂⟩ := hr
  rw [hfunds] at hsw₂
  simp only at hsw₂ hadd₂ hex₂ ⊢
  -- the amount is covered by the waiting and the active stake of the caller
  have hwaiting := hsw₁.shift.userTotal (s.userId env.caller) .waiting
  have hactive := hsw₁.shift.userTotal (s.userId env.caller) .active
  have hunstaked := hsw₂.shift.userTotal (s.userId env.caller) .active
  simp only [reduceCtorEq, if_false, if_true, add_zero, userStakeOfType_of_ne hid]
    at hwaiting hactive hunstaked hamount
  have hall : amount₁ = s.funds.userTotal (s.userId env.caller) .waiting := by omega
  have hrest₂ : rest₂ = 0 := by omega
  subst hrest₂
  refine Spec.bind (P := fun _ => True) (by simp [require]) fun _ _ => ?_
  have hactive₂ := hsw₂.shift.typeTotal .active
  simp only [reduceCtorEq, if_false, if_true, add_zero] at hactive₂
  refine Spec.bind ((useWaitingToReplaceUnstaked_spec (s := { mid with funds := funds₂ })
    hsw₂.sound).mono (fun _ hr => hr) fun e he => he.mono (by simp [unStakeRefusals])
      fun hs => ?_) fun s' hs' => ?_
  · exact (hset.steady (hsteady hs)).of_funds hsw₂.sound (by rw [hfunds]; omega)
  obtain ⟨deferred, activated, toDeferred, toActive, hre⟩ := hs'
  refine Spec.bind (P := fun _ => True) ?_ fun _ _ =>
    .fromActive hop' hid hsw₁ hset hsw₂ hmoved₁ hmoved₂ hall (by omega) (by omega) hre
  exact (spec_require fun _ => hrefuse _ (by simp [unStakeRefusals])).imp fun _ _ => trivial

/-- **Unstaking is neutral for every user.** -/
theorem UnStaked.neutral {amount : ℕ} (hs : s.UnStaked env amount s')
    (hboot : s.UpToDateInBootstrap) (hu : u ≠ 0) : Neutral s s' u := by
  cases hs with
  | fromWaiting _ _ hsw _ =>
    exact .inl ⟨rfl, rewardTerms_of_swapped hsw (by decide) (by decide) hu⟩
  | @fromActive funds₁ funds₂ moved₁ moved₂ _ _ _ _ _ _ mid _ _ hid hsw₁ hset hsw₂ _ _ _ _ _ hre =>
    have h₁ : Neutral s { s with funds := funds₁ } u :=
      .inl ⟨rfl, rewardTerms_of_swapped hsw₁ (by decide) (by decide) hu⟩
    have h₂ : Neutral { s with funds := funds₁ } { mid with funds := funds₂ } u := by
      refine hset.neutral_of_funds funds₂ fun hnot => ?_
      rw [not_or] at hnot
      refine hset.rewardTerms_of_funds hu hnot.1 ?_
      have hactive := hsw₂.shift.userTotal u .active
      rw [if_pos rfl, if_neg (by decide), hsw₂.moved_eq_zero u hnot.2] at hactive
      exact hactive
    refine (h₁.trans h₂).trans (hre.neutral (fun hb v => ?_) u hu)
    -- in bootstrap mode the checkpoints were up to date, and settling keeps them so
    have hb' : s.bootstrapMode = true := by
      rw [← hb]
      exact (congrArg Ledger.bootstrapMode hset.frame).symm
    have hcum : mid.cumulatedRewards = s.cumulatedRewards := hset.cumulatedRewards
    change mid.userRewCheckpoint v = mid.cumulatedRewards
    rw [hcum]
    rcases hset.checkpoint_cases v with heq | heq
    · exact heq.trans (hboot hb' v)
    · exact heq

/-! ### `unBond` -/

/-- Deferred payments that are due become withdrawable, and withdrawable funds are paid. -/
inductive UnBonded (s : Ledger) (env : Env) : Ledger → ℕ → Prop
  | intro {funds₁ funds₂ : FundStore} {moved : ℕ → ℕ} {amount paid : ℕ}
      (hid : s.userId env.caller ≠ 0)
      (hsw : FundStore.Swapped Relied s.funds funds₁ .deferredPayment .withdrawOnly
        (FundStore.eligibleDeferredToWithdraw env.blockNonce s.nBlocksBeforeUnbond)
        (· = s.userId env.caller) moved amount)
      (hmoved : moved (s.userId env.caller) = amount)
      (hsound : FundStore.Sound Relied funds₂)
      (hpaid : FundStore.Destroyed funds₁ funds₂ (s.userId env.caller) .withdrawOnly paid)
      (hle : paid ≤ s.balance) :
      UnBonded s env { s with
        funds := funds₂
        balance := s.balance - paid
        paidOut := Function.update s.paidOut env.caller (s.paidOut env.caller + paid) } paid

theorem unBond_spec (h : s.FundsSound) (env : Env) :
    Spec (s.unBond env) (fun r => s.UnBonded env r.1 r.2) fun e => ¬ e.Arith ∧
      (s.funds.typeTotal .deferredPayment + s.funds.typeTotal .withdrawOnly ≤ s.balance →
        e ≠ .insufficientFunds) := by
  have hmsg : ∀ msg, ¬ (Panic.scPanic msg).Arith ∧
      (s.funds.typeTotal .deferredPayment + s.funds.typeTotal .withdrawOnly ≤ s.balance →
        Panic.scPanic msg ≠ .insufficientFunds) := fun msg =>
    ⟨Panic.not_arith_scPanic msg, fun _ h => by cases h⟩
  have hgas : ∀ e, e = Panic.outOfGas → ¬ e.Arith ∧
      (s.funds.typeTotal .deferredPayment + s.funds.typeTotal .withdrawOnly ≤ s.balance →
        e ≠ .insufficientFunds) := by
    rintro e rfl
    exact ⟨fun h => by cases h <;> contradiction, fun _ h => by cases h⟩
  refine Spec.bind (spec_require fun _ => hmsg _) fun _ _ => ?_
  refine Spec.bind (spec_require fun _ => hmsg _) fun _ hid => ?_
  refine Spec.bind ((FundStore.Sound.swapEligibleDeferredToWithdraw h (by decide) env.blockNonce
    (s.userId env.caller) s.nBlocksBeforeUnbond (env.gasLow 0) env.fuel).mono (fun _ hr => hr) hgas)
    fun r hr => ?_
  obtain ⟨funds₁, total⟩ := r
  obtain ⟨moved, amount, hsw, hmoved⟩ := hr
  simp only at hsw ⊢
  refine Spec.bind ((hsw.sound.liquidateAllWithdrawOnly (s.userId env.caller) (env.gasLow 1)
    env.fuel).mono (fun _ hr => hr) hgas) fun r hr => ?_
  obtain ⟨funds₂, paid⟩ := r
  obtain ⟨hsound, hpaid⟩ := hr
  have hid' : s.userId env.caller ≠ 0 := by omega
  simp only at hsound hpaid ⊢
  split_ifs with hpos
  · by_cases hle : paid ≤ s.balance
    · simp only [directEgld, if_pos hle, ok_bind, pure_eq_ok]
      exact UnBonded.intro hid' hsw hmoved hsound hpaid hle
    · -- what is paid was withdrawable or deferred before
      have h₁ := hsw.shift.typeTotal .withdrawOnly
      have h₂ := hpaid.typeTotal .withdrawOnly
      have h₃ := hsw.shift.typeTotal .deferredPayment
      simp only [reduceCtorEq, if_false, if_true, add_zero] at h₁ h₂ h₃
      simp only [directEgld, if_neg hle, error_bind]
      exact ⟨fun h => by cases h <;> contradiction, fun hcov => by omega⟩
  · obtain rfl : paid = 0 := by omega
    have hunbond := UnBonded.intro hid' hsw hmoved hsound hpaid (Nat.zero_le _)
    simp only [Nat.sub_zero, add_zero, Function.update_eq_self] at hunbond
    exact hunbond

/-- Unbonding moves no active funds. -/
theorem UnBonded.rewardTerms_eq {paid : ℕ} (hs : s.UnBonded env s' paid) (hu : u ≠ 0) :
    s'.rewardTerms u = s.rewardTerms u := by
  obtain ⟨_, hsw, -, -, hpaid, -⟩ := hs
  rw [← rewardTerms_of_swapped hsw (by decide) (by decide) hu]
  have htype := hpaid.typeTotal .active
  have huser := hpaid.userTotal u .active
  rw [if_neg (by simp), add_zero] at htype huser
  simp only [rewardTerms, userStakeOfType_of_ne hu, userStakeOfType_zero, htype, huser]

/-- **Unbonding is neutral for every user.** -/
theorem UnBonded.neutral {paid : ℕ} (hs : s.UnBonded env s' paid) (hu : u ≠ 0) :
    Neutral s s' u := by
  have hterms := hs.rewardTerms_eq hu
  obtain ⟨-, -, -, -, -, -⟩ := hs
  exact .inl ⟨rfl, hterms⟩

/-! ### `claimRewards` -/

/-- The updated rewards of the caller are paid, and counted as sent. -/
inductive Claimed (s : Ledger) (env : Env) : Ledger → ℕ → Prop
  | intro {claimed : ℕ} (hop : s.globalOpCheckpoint = .none) (hid : s.userId env.caller ≠ 0)
      (hload : s.loadUpdatedUserRewards (s.userId env.caller) =
        .ok ⟨s.cumulatedRewards, claimed⟩)
      (hle : claimed ≤ s.balance) :
      Claimed s env
        ({ s with
          balance := s.balance - claimed
          paidOut := Function.update s.paidOut env.caller (s.paidOut env.caller + claimed)
          sentRewards := s.sentRewards + claimed }.storeUserRewardData (s.userId env.caller)
            ⟨s.cumulatedRewards, 0⟩) claimed

theorem claimRewards_spec (s : Ledger) (env : Env) :
    Spec (s.claimRewards env) (fun s' => ∃ claimed, s.Claimed env s' claimed)
      fun e => e.Arith → ¬ s.Steady := by
  have hmsg : ∀ msg, (Panic.scPanic msg).Arith → ¬ s.Steady := fun msg h =>
    absurd h (Panic.not_arith_scPanic msg)
  refine Spec.bind (spec_require fun _ => hmsg _) fun _ _ => ?_
  refine Spec.bind (spec_require fun _ => hmsg _) fun _ _ => ?_
  refine Spec.bind (spec_require fun _ => hmsg _) fun _ hid => ?_
  refine Spec.bind (spec_require fun _ => hmsg _) fun _ hop => ?_
  refine Spec.bind ((s.loadUpdatedUserRewards_spec _).mono (fun _ h => h)
    fun e he ha hs => he.not_arith hs ha) fun data hload => ?_
  have hop' := globalOpCheckpoint_eq_none hop
  have hcp := loadUpdatedUserRewards_checkpoint hload
  obtain ⟨cp, claimed⟩ := data
  simp only at hcp
  subst hcp
  simp only
  split_ifs with hpos
  · by_cases hle : claimed ≤ s.balance
    · simp only [sendRewards, directEgld, if_pos hle, ok_bind, pure_eq_ok]
      exact ⟨claimed, Claimed.intro hop' hid hload hle⟩
    · simp only [sendRewards, directEgld, if_neg hle, error_bind]
      exact fun h => by rcases h with h | h <;> cases h
  · obtain rfl : claimed = 0 := by omega
    have hclaim := Claimed.intro hop' hid hload (Nat.zero_le _)
    simp only [Nat.sub_zero, add_zero, Function.update_eq_self] at hclaim
    exact ⟨0, hclaim⟩

/-- **Claiming is neutral for the other users.** -/
theorem Claimed.neutral {claimed : ℕ} (hs : s.Claimed env s' claimed)
    (hu : u ≠ s.userId env.caller) : Neutral s s' u := by
  obtain ⟨_, _, hload, hle⟩ := hs
  exact .inl ⟨storeUserRewardData_load_of_ne hu _, rfl⟩

end Ledger

end Delegation
