import Delegation.Latest.UserStake
import Delegation.Fund.Totals

/-!
# Bringing rewards up to date

What a user earns depends on five numbers, `Ledger.rewardTerms`. An operation is neutral for a user
(`Ledger.Neutral`) when it changes neither the user's reward data nor these terms, or when it stored
the rewards that were due under the old terms. Either way `load_updated_user_rewards` gives the same
amount before and after, which is `Neutral.updated_eq`.

`Settled` is what computing the rewards of some users does to the ledger, and `Steady` is the
condition under which that raises no arithmetic panic.
-/

namespace Delegation

open Outcome

namespace Ledger

/-- What the rewards of a user depend on, besides the user's own reward data. -/
structure RewardTerms where
  cumulatedRewards : ℕ
  serviceFee : ℕ
  totalDelegationCap : ℕ
  totalActive : ℕ
  active : ℕ

/-- The terms of a user; the total active stake matters to the owner only. -/
def rewardTerms (s : Ledger) (userId : ℕ) : RewardTerms where
  cumulatedRewards := s.cumulatedRewards
  serviceFee := s.serviceFee
  totalDelegationCap := s.totalDelegationCap
  totalActive := if userId = ownerUserId then s.userStakeOfType 0 .active else 0
  active := s.userStakeOfType userId .active

variable {s s' s'' : Ledger} {u : ℕ} {users users' : ℕ → Prop}

@[simp]
theorem userStakeOfType_zero (t : FundType) : s.userStakeOfType 0 t = s.funds.typeTotal t := rfl

theorem userStakeOfType_of_ne (hu : u ≠ 0) (t : FundType) :
    s.userStakeOfType u t = s.funds.userTotal u t := if_neg hu

/-- The rewards are a function of the user's data and terms. -/
theorem loadUpdatedUserRewards_congr (hdata : s'.loadUserRewardData u = s.loadUserRewardData u)
    (hterms : s'.rewardTerms u = s.rewardTerms u) :
    s'.loadUpdatedUserRewards u = s.loadUpdatedUserRewards u := by
  simp only [rewardTerms, RewardTerms.mk.injEq] at hterms
  obtain ⟨hcum, hfee, hcap, htotal, hactive⟩ := hterms
  simp only [loadUpdatedUserRewards, splitServiceReward, ownerExtraRewards, delegatorNewRewards,
    hdata, hcum, hfee, hcap, hactive]
  by_cases hu : u = ownerUserId
  · rw [if_pos hu, if_pos hu] at htotal
    simp only [if_pos hu, htotal]
  · simp only [if_neg hu]

/-- The checkpoint of updated rewards is the current one. -/
theorem loadUpdatedUserRewards_checkpoint {data : UserRewardData}
    (h : s.loadUpdatedUserRewards u = .ok data) : data.rewardCheckpoint = s.cumulatedRewards := by
  simp only [loadUpdatedUserRewards] at h
  obtain ⟨new, hnew, h⟩ := bind_eq_ok.mp h
  rw [bigSub_eq_ok] at hnew
  split_ifs at h with h0
  · cases h
    omega
  · obtain ⟨_, -, h⟩ := bind_eq_ok.mp h
    obtain ⟨_, -, h⟩ := bind_eq_ok.mp h
    obtain ⟨_, -, h⟩ := bind_eq_ok.mp h
    cases h
    rfl

/-- Computing rewards fails only in its arithmetic. -/
theorem loadUpdatedUserRewards_error {e : Panic} (h : s.loadUpdatedUserRewards u = .error e) :
    e.Arith := by
  have hspec : Spec (s.loadUpdatedUserRewards u) (fun _ => True) Panic.Arith := by
    refine Spec.bind (spec_bigSub_arith _ _) fun new _ => ?_
    split_ifs
    · trivial
    refine Spec.bind (P := fun _ => True)
      (Spec.bind (spec_bigSub_arith _ _) fun _ _ => trivial) fun rewards _ => ?_
    simp only [ownerExtraRewards_eq, ok_bind]
    refine Spec.bind (P := fun _ => True) ?_ fun _ _ => trivial
    simp only [delegatorNewRewards]
    split_ifs
    · exact spec_bigDiv_arith _ _
    · trivial
  exact hspec.of_error h

/-! ### Neutral operations -/

/-- Nothing that the rewards of the user depend on has changed, or what was due is stored. -/
def Neutral (s s' : Ledger) (u : ℕ) : Prop :=
  s'.loadUserRewardData u = s.loadUserRewardData u ∧ s'.rewardTerms u = s.rewardTerms u ∨
    s'.cumulatedRewards = s.cumulatedRewards ∧
      s.loadUpdatedUserRewards u = .ok (s'.loadUserRewardData u)

theorem Neutral.refl (s : Ledger) (u : ℕ) : Neutral s s u := .inl ⟨rfl, rfl⟩

/-- **A neutral operation does not change the updated rewards.** -/
theorem Neutral.updated_eq (h : Neutral s s' u) :
    (s'.loadUpdatedUserRewards u).map UserRewardData.unclaimedRewards =
      (s.loadUpdatedUserRewards u).map UserRewardData.unclaimedRewards := by
  rcases h with ⟨hdata, hterms⟩ | ⟨hcum, hload⟩
  · rw [loadUpdatedUserRewards_congr hdata hterms]
  · have hcp : s'.userRewCheckpoint u = s'.cumulatedRewards := by
      rw [hcum]
      exact loadUpdatedUserRewards_checkpoint hload
    rw [loadUpdatedUserRewards_of_eq hcp, hload]

theorem Neutral.cumulatedRewards (h : Neutral s s' u) :
    s'.cumulatedRewards = s.cumulatedRewards := by
  rcases h with ⟨-, hterms⟩ | ⟨hcum, -⟩
  · exact congrArg RewardTerms.cumulatedRewards hterms
  · exact hcum

/-- After what was due is stored, nothing more is due until rewards arrive. -/
theorem loadUpdatedUserRewards_of_settled (hcum : s'.cumulatedRewards = s.cumulatedRewards)
    (hload : s.loadUpdatedUserRewards u = .ok (s'.loadUserRewardData u)) :
    s'.loadUpdatedUserRewards u = .ok (s'.loadUserRewardData u) :=
  loadUpdatedUserRewards_of_eq ((loadUpdatedUserRewards_checkpoint hload).trans hcum.symm)

theorem Neutral.trans (h : Neutral s s' u) (h' : Neutral s' s'' u) : Neutral s s'' u := by
  have hcum := h'.cumulatedRewards.trans h.cumulatedRewards
  rcases h with ⟨hdata, hterms⟩ | ⟨hcum₁, hload⟩
  · rcases h' with ⟨hdata', hterms'⟩ | ⟨-, hload'⟩
    · exact .inl ⟨hdata'.trans hdata, hterms'.trans hterms⟩
    · exact .inr ⟨hcum, by rw [← loadUpdatedUserRewards_congr hdata hterms, hload']⟩
  · refine .inr ⟨hcum, ?_⟩
    rcases h' with ⟨hdata', -⟩ | ⟨-, hload'⟩
    · rw [hdata', hload]
    · rw [loadUpdatedUserRewards_of_settled hcum₁ hload, Except.ok.injEq] at hload'
      rw [← hload', hload]

/-! ### Computing rewards -/

/-- The rewards of some users have been computed, and of no others except by the same rule. -/
structure Settled (s s' : Ledger) (users : ℕ → Prop) : Prop where
  frame : s' = { s with
    userRewCheckpoint := s'.userRewCheckpoint
    userRewUnclaimed := s'.userRewUnclaimed }
  done : ∀ u, users u → s.loadUpdatedUserRewards u = .ok (s'.loadUserRewardData u)
  kept : ∀ u, s'.loadUserRewardData u = s.loadUserRewardData u ∨
    s.loadUpdatedUserRewards u = .ok (s'.loadUserRewardData u)

theorem Settled.refl (s : Ledger) : Settled s s fun _ => False :=
  ⟨rfl, fun _ h => h.elim, fun _ => .inl rfl⟩

theorem Settled.funds (h : Settled s s' users) : s'.funds = s.funds := by
  rw [h.frame]

theorem Settled.cumulatedRewards (h : Settled s s' users) :
    s'.cumulatedRewards = s.cumulatedRewards := by
  rw [h.frame]

theorem Settled.rewardTerms (h : Settled s s' users) (u : ℕ) :
    s'.rewardTerms u = s.rewardTerms u := by
  rw [h.frame]
  rfl

theorem Settled.neutral (h : Settled s s' users) (u : ℕ) : Neutral s s' u := by
  rcases h.kept u with hdata | hload
  · exact .inl ⟨hdata, h.rewardTerms u⟩
  · exact .inr ⟨h.cumulatedRewards, hload⟩

/-- Rewards are computed first, then funds change the terms of the settled users only. -/
theorem Settled.neutral_of_funds (h : Settled s s' users) (funds : FundStore)
    (hterms : ¬ users u → { s' with funds := funds }.rewardTerms u = s.rewardTerms u) :
    Neutral s { s' with funds := funds } u := by
  by_cases hu : users u
  · exact .inr ⟨h.cumulatedRewards, h.done u hu⟩
  · rcases h.kept u with hdata | hload
    · exact .inl ⟨hdata, hterms hu⟩
    · exact .inr ⟨h.cumulatedRewards, hload⟩

/-- The terms of a user other than the owner whose active stake stays. -/
theorem Settled.rewardTerms_of_funds {funds : FundStore} (h : Settled s s' users) (hu : u ≠ 0)
    (howner : u ≠ ownerUserId) (hactive : funds.userTotal u .active = s.funds.userTotal u .active) :
    { s' with funds := funds }.rewardTerms u = s.rewardTerms u := by
  have hmid := h.rewardTerms u
  simp only [Ledger.rewardTerms, if_neg howner, userStakeOfType_of_ne hu,
    RewardTerms.mk.injEq] at hmid ⊢
  exact ⟨hmid.1, hmid.2.1, hmid.2.2.1, trivial, hactive⟩

/-- A settled user is up to date. -/
theorem Settled.checkpoint_eq (h : Settled s s' users) (hu : users u) :
    s'.userRewCheckpoint u = s'.cumulatedRewards := by
  rw [h.cumulatedRewards]
  exact loadUpdatedUserRewards_checkpoint (h.done u hu)

/-- Settling moves a checkpoint to the current rewards or leaves it. -/
theorem Settled.checkpoint_cases (h : Settled s s' users) (u : ℕ) :
    s'.userRewCheckpoint u = s.userRewCheckpoint u ∨
      s'.userRewCheckpoint u = s.cumulatedRewards := by
  rcases h.kept u with hdata | hload
  · exact .inl (congrArg UserRewardData.rewardCheckpoint hdata)
  · exact .inr (loadUpdatedUserRewards_checkpoint hload)

theorem Settled.trans (h : Settled s s' users) (h' : Settled s' s'' users') :
    Settled s s'' fun u => users u ∨ users' u := by
  have hload : ∀ u, s''.loadUserRewardData u = s.loadUserRewardData u ∧
      s'.loadUserRewardData u = s.loadUserRewardData u ∨
      s.loadUpdatedUserRewards u = .ok (s''.loadUserRewardData u) := by
    intro u
    rcases h.kept u with hdata | hone
    · rcases h'.kept u with hdata' | htwo
      · exact .inl ⟨hdata'.trans hdata, hdata⟩
      · rw [loadUpdatedUserRewards_congr hdata (h.rewardTerms u)] at htwo
        exact .inr htwo
    · rcases h'.kept u with hdata' | htwo
      · exact .inr (by rw [hone, hdata'])
      · rw [loadUpdatedUserRewards_of_settled h.cumulatedRewards hone, Except.ok.injEq] at htwo
        exact .inr (by rw [hone, htwo])
  refine ⟨?_, fun u hu => ?_, fun u => (hload u).imp_left And.left⟩
  · rw [h'.frame, h.frame]
  · rcases hload u with ⟨hkept, hkept'⟩ | hdone
    · -- a settled user whose data did not change was up to date before
      rcases hu with hu | hu
      · rw [h.done u hu, hkept, hkept']
      · have := h'.done u hu
        rw [loadUpdatedUserRewards_congr hkept' (h.rewardTerms u)] at this
        exact this
    · exact hdone

theorem Settled.imp (h : Settled s s' users) (hu : ∀ u, users' u → users u) :
    Settled s s' users' :=
  ⟨h.frame, fun u hu' => h.done u (hu u hu'), h.kept⟩

theorem storeUserRewardData_load (data : UserRewardData) :
    (s.storeUserRewardData u data).loadUserRewardData u = data := by
  simp [loadUserRewardData]

theorem storeUserRewardData_load_of_ne {v : ℕ} (hne : v ≠ u) (data : UserRewardData) :
    (s.storeUserRewardData u data).loadUserRewardData v = s.loadUserRewardData v := by
  simp [loadUserRewardData, hne]

theorem settled_storeUserRewardData {data : UserRewardData}
    (h : s.loadUpdatedUserRewards u = .ok data) :
    Settled s (s.storeUserRewardData u data) (· = u) := by
  refine ⟨rfl, ?_, fun v => ?_⟩
  · rintro v rfl
    rw [storeUserRewardData_load, h]
  · by_cases hv : v = u
    · rw [hv, storeUserRewardData_load, h]
      exact .inr rfl
    · exact .inl (storeUserRewardData_load_of_ne hv data)

/-! ### The conditions under which no arithmetic panics -/

/-- The type lists that the endpoints walk. Dust cleanup can spoil the one of `WithdrawOnly`. -/
def Relied (t : FundType) : Prop := t ≠ .withdrawOnly

instance : DecidablePred Relied := fun t => inferInstanceAs (Decidable (t ≠ .withdrawOnly))

/-- The funds are sound but for the list of all `WithdrawOnly` items. -/
def FundsSound (s : Ledger) : Prop := FundStore.Sound Relied s.funds

/-- The rewards of every user can be computed. -/
structure Steady (s : Ledger) : Prop where
  sound : s.FundsSound
  checkpoint_le : ∀ u, s.userRewCheckpoint u ≤ s.cumulatedRewards
  serviceFee_le : s.serviceFee ≤ percentageDenominator
  active_le : s.funds.typeTotal .active ≤ s.totalDelegationCap

theorem Steady.computable (h : s.Steady) (u : ℕ) : s.Computable u := by
  refine ⟨h.checkpoint_le u, h.serviceFee_le, fun hpos => hpos.trans_le (le_trans ?_ h.active_le)⟩
  unfold userStakeOfType
  split_ifs
  · exact le_rfl
  · exact h.sound.userTotal_le u .active

theorem Settled.steady (h : Settled s s' users) (hs : s.Steady) : s'.Steady := by
  have hcp : ∀ u, s'.userRewCheckpoint u ≤ s.cumulatedRewards := fun u => by
    rcases h.checkpoint_cases u with heq | heq
    · exact heq.trans_le (hs.checkpoint_le u)
    · exact heq.le
  obtain ⟨hsound, -, hfee, hactive⟩ := hs
  rw [h.frame]
  exact ⟨hsound, hcp, hfee, hactive⟩

/-- How a call fails that moves funds and computes rewards: a traversal is too long, or one of
the given checks refuses, or the arithmetic panics on a ledger that is not steady. -/
def Fails (s : Ledger) (msgs : List String) (e : Panic) : Prop :=
  e.Resource ∨ (∃ msg ∈ msgs, e = .scPanic msg) ∨ e.Arith ∧ ¬ s.Steady

variable {msgs msgs' : List String} {e : Panic}

theorem fails_scPanic (s : Ledger) {msg : String} (h : msg ∈ msgs) : s.Fails msgs (.scPanic msg) :=
  .inr (.inl ⟨msg, h, rfl⟩)

theorem fails_of_isCapacity (s : Ledger) (msgs : List String) {interrupt : ℕ → Bool}
    (h : FundStore.IsCapacity interrupt e) : s.Fails msgs e :=
  .inl (.inr h.1)

theorem fails_outOfGas (s : Ledger) (msgs : List String) (h : e = .outOfGas) : s.Fails msgs e :=
  .inl (.inl h)

/-- A failure of a later part, with more checks and from an earlier ledger. -/
theorem Fails.mono (h : s'.Fails msgs e) (hmsgs : ∀ msg ∈ msgs, msg ∈ msgs')
    (hsteady : s.Steady → s'.Steady) : s.Fails msgs' e := by
  rcases h with h | ⟨msg, hmsg, he⟩ | ⟨harith, hnot⟩
  · exact .inl h
  · exact .inr (.inl ⟨msg, hmsgs msg hmsg, he⟩)
  · exact .inr (.inr ⟨harith, mt hsteady hnot⟩)

theorem Fails.not_arith (h : s.Fails msgs e) (hs : s.Steady) : ¬ e.Arith := by
  rcases h with h | ⟨msg, -, rfl⟩ | ⟨-, hnot⟩
  · exact h.not_arith
  · exact Panic.not_arith_scPanic msg
  · exact absurd hs hnot

/-- A check that is not among those listed is not the reason. -/
theorem Fails.ne_scPanic (h : s.Fails msgs e) {msg : String} (hmsg : msg ∉ msgs)
    (hcap : msg ≠ "affected user capacity exceeded") : e ≠ .scPanic msg := by
  rintro rfl
  rcases h with (h | h) | ⟨msg', hmem, h⟩ | ⟨h | h, -⟩
  · cases h
  · exact hcap (Panic.scPanic.inj h)
  · rw [Panic.scPanic.inj h] at hmsg
    exact hmsg hmem
  · cases h
  · cases h

theorem loadUpdatedUserRewards_spec (s : Ledger) (u : ℕ) :
    Spec (s.loadUpdatedUserRewards u) (fun data => s.loadUpdatedUserRewards u = .ok data)
      (s.Fails []) := by
  refine Spec.intro (fun _ h => h) fun e he => .inr (.inr ⟨?_, fun hs => ?_⟩)
  · exact loadUpdatedUserRewards_error he
  · rw [(hs.computable u).loadUpdatedUserRewards_eq] at he
    cases he

theorem computeOneUserReward_spec (s : Ledger) (u : ℕ) :
    Spec (s.computeOneUserReward u) (fun s' => Settled s s' (· = u)) (s.Fails []) :=
  Spec.bind (s.loadUpdatedUserRewards_spec u) fun _ hdata => settled_storeUserRewardData hdata

/-- The loop over the affected users. -/
theorem computeAffectedUserRewards_spec (s : Ledger) (affectedUsers : List ℕ) :
    Spec (affectedUsers.foldlM computeAffectedUserReward s)
      (fun s' => Settled s s' (· ∈ affectedUsers)) (s.Fails ["bad user_id"]) := by
  refine (Spec.foldlM (J := fun done s' => Settled s s' (· ∈ done))
    ((Settled.refl s).imp (by simp)) fun done u s' _ hs' => ?_)
  refine Spec.bind (spec_require fun _ => s.fails_scPanic (by simp)) fun _ _ => ?_
  exact (s'.computeOneUserReward_spec u).mono
    (fun s'' hs'' => (hs'.trans hs'').imp (by simp))
    fun e he => he.mono (by simp) hs'.steady

end Ledger

end Delegation
