import Delegation.Latest.Settle

/-!
# Replacing unstaked funds by waiting ones

The specification of `use_waiting_to_replace_unstaked`. In both modes it defers unstaked funds and
activates waiting ones; `Rebalanced` says how much of each, what happens to every total, and that
the rewards of no user are affected.

The last point holds outside bootstrap mode because the dry run finds the users of the swap that
follows it, whose rewards are computed before their active stake grows, together with those of the
owner, whose share depends on the total. In bootstrap mode it holds because there are no rewards.
-/

namespace Delegation

open Outcome

namespace Ledger

variable {s s' s'' : Ledger} {u : ℕ}

/-! ### Activating with rewards -/

/-- `swappable` has been activated, after the rewards of all affected users were computed. -/
structure Activated (s s' : Ledger) (moved : ℕ → ℕ) (swappable : ℕ) : Prop where
  settled : Settled s { s' with funds := s.funds } fun u => u = ownerUserId ∨ moved u ≠ 0
  swapped : FundStore.Swapped Relied s.funds s'.funds .waiting .active
    (fun _ => some .active) (fun _ => True) moved
    swappable

/-- A user whose stake moves has been settled, and the terms of the others are as before. -/
theorem Activated.neutral {moved : ℕ → ℕ} {swappable : ℕ} (h : Activated s s' moved swappable)
    (hu : u ≠ 0) : Neutral s s' u := by
  refine h.settled.neutral_of_funds s'.funds fun hset => ?_
  rw [not_or, not_not] at hset
  refine h.settled.rewardTerms_of_funds hu hset.1 ?_
  have hactive := h.swapped.shift.userTotal u .active
  rw [if_neg (by decide), if_pos rfl, hset.2] at hactive
  omega

theorem swapWaitingToActiveComputeRewards_spec (h : s.FundsSound) (swappable : ℕ)
    (hle : swappable ≤ s.funds.typeTotal .waiting) :
    Spec (s.swapWaitingToActiveComputeRewards swappable)
      (fun s' => ∃ moved, Activated s s' moved swappable) (s.Fails ["bad user_id"]) := by
  refine Spec.bind ((FundStore.Sound.getAffectedUsersOfSwapWaitingToActive h (by decide) swappable
    never).mono (fun _ hr => hr) fun _ he => s.fails_of_isCapacity _ he) fun r hr => ?_
  obtain ⟨funds, affectedUsers, remaining⟩ := r
  obtain ⟨rfl, funds', hreal⟩ := hr
  have hswap := (FundStore.Sound.swapWaitingToActive h (by decide) swappable never).of_ok hreal
  obtain ⟨moved, amount, hsw, hadd, hex, -⟩ := hswap
  -- there is enough to swap, so nothing remains
  have hwaiting := hsw.shift.typeTotal .waiting
  simp only [reduceCtorEq, if_false, if_true, add_zero] at hwaiting hadd hex
  have hrem : remaining = 0 := (hex fun _ => rfl).elim id fun h0 => by omega
  subst hrem
  refine Spec.bind (P := fun _ => True) (by simp [require]) fun _ _ => ?_
  refine Spec.bind ((s.computeOneUserReward_spec ownerUserId).mono (fun _ h => h)
    fun _ he => he.mono (by simp) id) fun s₁ h₁ => ?_
  refine Spec.bind ((s₁.computeAffectedUserRewards_spec affectedUsers).mono (fun _ h => h)
    fun _ he => he.mono (by simp) h₁.steady) fun s₂ h₂ => ?_
  -- computing rewards has not touched the funds, so the real swap is the one of the dry run
  have hset := h₁.trans h₂
  have hreal' : s₂.funds.swapWaitingToActive swappable never =
      .ok (funds', 0, affectedUsers) := by
    rw [hset.funds]
    exact hreal
  rw [hreal', ok_bind]
  refine Spec.bind (P := fun _ => True) (by simp [require]) fun _ _ => ⟨moved, ?_, ?_⟩
  · have hmid :
        ({ ({ s₂ with funds := funds' } : Ledger) with funds := s.funds } : Ledger) = s₂ := by
      rw [← hset.funds]
    rw [hmid]
    refine hset.imp fun v hv => hv.imp_right fun hmoved => ?_
    by_contra hnot
    exact hmoved (hsw.moved_eq_zero v hnot)
  · have hamount : amount = swappable := by omega
    subst hamount
    exact { hsw with
      relabelled := hsw.relabelled.mono fun _ _ _ hvia => ⟨trivial, hvia.2⟩
      moved_eq_zero := fun _ hv => absurd trivial hv }

/-! ### The specification -/

/-- Unstaked funds are deferred, with their nonce, and waiting ones activated. -/
def Rebalances (_ : ℕ) (d d' : FundDescription) : Prop :=
  FundStore.unstakedToDeferred d = some d' ∨ d.fundType = .waiting ∧ d' = .active

/-- `toDeferred` has been deferred and `toActive` activated. -/
structure Rebalanced (s s' : Ledger) (deferred activated : ℕ → ℕ) (toDeferred toActive : ℕ) :
    Prop where
  frame : s' = { s with
    funds := s'.funds
    bootstrapMode := s'.bootstrapMode
    userRewCheckpoint := s'.userRewCheckpoint
    userRewUnclaimed := s'.userRewUnclaimed }
  sound : s'.FundsSound
  typeTotal : ∀ t, s'.funds.typeTotal t + (if t = .unStaked then toDeferred else 0) +
    (if t = .waiting then toActive else 0) = s.funds.typeTotal t +
    (if t = .deferredPayment then toDeferred else 0) + if t = .active then toActive else 0
  userTotal : ∀ u t, s'.funds.userTotal u t + (if t = .unStaked then deferred u else 0) +
    (if t = .waiting then activated u else 0) = s.funds.userTotal u t +
    (if t = .deferredPayment then deferred u else 0) + if t = .active then activated u else 0
  evolves : FundStore.Evolves s.funds s'.funds
  relabelled : FundStore.Relabelled Rebalances s.funds s'.funds
  neutral : (s.bootstrapMode = true → ∀ u, s.userRewCheckpoint u = s.cumulatedRewards) →
    ∀ u, u ≠ 0 → Neutral s s' u
  checkpoint : ∀ u, s'.userRewCheckpoint u = s.userRewCheckpoint u ∨
    s'.userRewCheckpoint u = s.cumulatedRewards
  regular : s.bootstrapMode = false → s'.bootstrapMode = false ∧
    toDeferred = min (s.funds.typeTotal .waiting) (s.funds.typeTotal .unStaked) ∧
    toActive = min (s.funds.typeTotal .waiting) (s.funds.typeTotal .unStaked)
  bootstrap : s.bootstrapMode = true → toDeferred = s.funds.typeTotal .unStaked ∧
    s.funds.typeTotal .active + toActive ≤ s.totalDelegationCap ∧
    (s'.bootstrapMode = true → toActive = s.funds.typeTotal .waiting) ∧
    (s'.bootstrapMode = false ↔ s.funds.typeTotal .active + toActive = s.totalDelegationCap)

theorem rebalanced_refl (h : s.FundsSound) (hb : s.bootstrapMode = false)
    (hmin : min (s.funds.typeTotal .waiting) (s.funds.typeTotal .unStaked) = 0) :
    Rebalanced s s (fun _ => 0) (fun _ => 0) 0 0 where
  frame := rfl
  sound := h
  typeTotal := by simp
  userTotal := by simp
  evolves := .refl _
  relabelled := .refl _
  neutral _ u _ := .refl s u
  checkpoint _ := .inl rfl
  regular _ := ⟨hb, hmin.symm, hmin.symm⟩
  bootstrap hb' := by rw [hb] at hb'; cases hb'

theorem relabelled_of_swapped {funds funds₁ funds₂ : FundStore} {users₁ users₂ : ℕ → Prop}
    {moved₁ moved₂ : ℕ → ℕ} {amount₁ amount₂ : ℕ}
    (h₁ : FundStore.Swapped Relied funds funds₁ .unStaked .deferredPayment
      FundStore.unstakedToDeferred users₁ moved₁ amount₁)
    (h₂ : FundStore.Swapped Relied funds₁ funds₂ .waiting .active (fun _ => some .active) users₂
      moved₂ amount₂) : FundStore.Relabelled Rebalances funds funds₂ := by
  refine (h₁.relabelled.mono fun _ _ _ hvia => .inl hvia.2.2).trans
    (h₂.relabelled.mono fun _ _ _ hvia => .inr ⟨hvia.2.1, ?_⟩)
  exact (Option.some.inj hvia.2.2).symm

theorem useWaitingInBootstrapMode_spec (h : s.FundsSound) (hb : s.bootstrapMode = true) :
    Spec s.useWaitingInBootstrapMode
      (fun s' => ∃ deferred activated toDeferred toActive,
        Rebalanced s s' deferred activated toDeferred toActive) (s.Fails ["bad user_id"]) := by
  refine Spec.bind ((FundStore.Sound.swapUnstakedToDeferredPayment h (by decide) _ never).mono
    (fun _ hr => hr) fun _ he => s.fails_of_isCapacity _ he) fun r hr => ?_
  obtain ⟨funds₁, rest₁⟩ := r
  obtain ⟨deferred, toDeferred, hsw₁, hadd₁, hex₁, -⟩ := hr
  have hunstaked := hsw₁.shift.typeTotal .unStaked
  have hactive := hsw₁.shift.typeTotal .active
  have hwaiting := hsw₁.shift.typeTotal .waiting
  simp only [userStakeOfType_zero] at hadd₁
  simp only at hsw₁ hex₁
  simp only [reduceCtorEq, if_false, if_true, add_zero] at hactive hwaiting hunstaked
  have hrest₁ : rest₁ = 0 := (hex₁ fun _ => rfl).elim id fun h0 => by omega
  subst hrest₁
  refine Spec.bind (P := fun _ => True) (by simp [require]) fun _ _ => ?_
  refine Spec.bind (Spec.intro (P := fun fillable => funds₁.typeTotal .active +
      fillable = s.totalDelegationCap) (fun fillable hf => ?_)
    fun e he => .inr (.inr ⟨(spec_bigSub_arith _ _).of_error he, fun hs => ?_⟩))
    fun fillable hf => ?_
  · rw [bigSub_eq_ok] at hf
    omega
  · have := hs.active_le
    rw [bigSub_of_le (by omega)] at he
    cases he
  refine Spec.bind ((FundStore.Sound.swapWaitingToActive hsw₁.sound (by decide) fillable
    never).mono (fun _ hr => hr) fun _ he => s.fails_of_isCapacity _ he) fun r hr => ?_
  obtain ⟨funds₂, rest₂, users⟩ := r
  obtain ⟨activated, toActive, hsw₂, hadd₂, hex₂, -⟩ := hr
  simp only at hsw₂ hadd₂ hex₂
  have hwaiting₂ := hsw₂.shift.typeTotal .waiting
  simp only [reduceCtorEq, if_false, if_true, add_zero] at hwaiting₂
  refine ⟨deferred, activated, toDeferred, toActive, ?_⟩
  exact {
    frame := rfl
    sound := hsw₂.sound
    typeTotal := fun t => by
      have h₁ := hsw₁.shift.typeTotal t
      have h₂ := hsw₂.shift.typeTotal t
      cases t <;> simp only [reduceCtorEq, if_false, if_true, add_zero] at h₁ h₂ ⊢ <;> omega
    userTotal := fun u t => by
      have h₁ := hsw₁.shift.userTotal u t
      have h₂ := hsw₂.shift.userTotal u t
      cases t <;> simp only [reduceCtorEq, if_false, if_true, add_zero] at h₁ h₂ ⊢ <;> omega
    evolves := hsw₁.evolves.trans hsw₂.evolves
    relabelled := relabelled_of_swapped hsw₁ hsw₂
    neutral := fun hcp u _ => .inr ⟨rfl, loadUpdatedUserRewards_of_eq (hcp hb u)⟩
    checkpoint := fun _ => .inl rfl
    regular := fun hb' => by rw [hb] at hb'; cases hb'
    bootstrap := fun _ => by
      refine ⟨by omega, by omega, fun hboot => ?_, ?_⟩
      · have hne : rest₂ ≠ 0 := by
          rintro rfl
          cases hboot
        have := (hex₂ fun _ => rfl).resolve_left hne
        omega
      · by_cases h0 : rest₂ = 0
        · simp only [h0, if_true, true_iff]
          omega
        · simp only [h0, if_false, hb]
          constructor
          · intro hfalse
            cases hfalse
          · omega }

/-- **`use_waiting_to_replace_unstaked`.** -/
theorem useWaitingToReplaceUnstaked_spec (h : s.FundsSound) :
    Spec s.useWaitingToReplaceUnstaked
      (fun s' => ∃ deferred activated toDeferred toActive,
        Rebalanced s s' deferred activated toDeferred toActive) (s.Fails ["bad user_id"]) := by
  simp only [useWaitingToReplaceUnstaked]
  split_ifs with hb hmin
  · exact useWaitingInBootstrapMode_spec h hb
  · exact ⟨_, _, _, _, rebalanced_refl h (by simpa using hb) hmin⟩
  have hb' : s.bootstrapMode = false := by simpa using hb
  simp only [userStakeOfType_zero] at hmin ⊢
  refine Spec.bind ((FundStore.Sound.swapUnstakedToDeferredPayment h (by decide) _ never).mono
    (fun _ hr => hr) fun _ he => s.fails_of_isCapacity _ he) fun r hr => ?_
  obtain ⟨funds₁, rest₁⟩ := r
  obtain ⟨deferred, toDeferred, hsw₁, hadd₁, hex₁, -⟩ := hr
  have hunstaked := hsw₁.shift.typeTotal .unStaked
  have hactive := hsw₁.shift.typeTotal .active
  have hwaiting := hsw₁.shift.typeTotal .waiting
  simp only at hsw₁ hadd₁ hex₁
  simp only [reduceCtorEq, if_false, if_true, add_zero] at hactive hwaiting hunstaked
  have hrest₁ : rest₁ = 0 := (hex₁ fun _ => rfl).elim id fun h0 => by omega
  subst hrest₁
  refine Spec.bind (P := fun _ => True) (by simp [require]) fun _ _ => ?_
  -- deferring changes neither the active stakes nor the reward data
  have hmid : ∀ u, u ≠ 0 → Neutral s { s with funds := funds₁ } u := by
    intro u hu
    have huser := hsw₁.shift.userTotal u .active
    simp only [reduceCtorEq, if_false, add_zero] at huser
    refine .inl ⟨rfl, ?_⟩
    simp only [rewardTerms, userStakeOfType_of_ne hu, userStakeOfType_zero, huser, hactive]
  refine (swapWaitingToActiveComputeRewards_spec (s := { s with funds := funds₁ }) hsw₁.sound
    _ (by simp only; omega)).mono (fun s' hs' => ?_) fun e he => he.mono (by simp) fun hs =>
      ⟨hsw₁.sound, hs.checkpoint_le, hs.serviceFee_le, hactive.trans_le hs.active_le⟩
  obtain ⟨activated, hact⟩ := hs'
  have hframe := hact.settled.frame
  refine ⟨deferred, activated, toDeferred,
    min (s.funds.typeTotal .waiting) (s.funds.typeTotal .unStaked), ?_⟩
  exact {
    frame := by
      have hs' : s' = { ({ s' with funds := funds₁ } : Ledger) with funds := s'.funds } := rfl
      rw [hs', hframe]
    sound := hact.swapped.sound
    typeTotal := fun t => by
      have h₁ := hsw₁.shift.typeTotal t
      have h₂ := hact.swapped.shift.typeTotal t
      cases t <;> simp only [reduceCtorEq, if_false, if_true, add_zero] at h₁ h₂ ⊢ <;> omega
    userTotal := fun u t => by
      have h₁ := hsw₁.shift.userTotal u t
      have h₂ := hact.swapped.shift.userTotal u t
      cases t <;> simp only [reduceCtorEq, if_false, if_true, add_zero] at h₁ h₂ ⊢ <;> omega
    evolves := hsw₁.evolves.trans hact.swapped.evolves
    relabelled := relabelled_of_swapped hsw₁ hact.swapped
    neutral := fun _ u hu => (hmid u hu).trans (hact.neutral hu)
    checkpoint := hact.settled.checkpoint_cases
    regular := fun _ => by
      refine ⟨?_, by omega, rfl⟩
      have := congrArg Ledger.bootstrapMode hframe
      exact this.trans hb'
    bootstrap := fun hb'' => by rw [hb'] at hb''; cases hb'' }

end Ledger

end Delegation
