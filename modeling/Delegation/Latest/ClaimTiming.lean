import Delegation.Latest.Rates
import Delegation.Latest.System
import Delegation.Latest.UserEndpoints

/-!
# When to claim

Rewards are computed when somebody asks for them, under the stakes of that moment, and every
computation rounds down. While the terms of a user stay as they are, it does not pay to ask often:
what many computations and claims add up to is at most what a single computation at the end would
give. Nor does it cost much, at most `roundingLoss` for each computation that found new rewards
(`claim_timing`).

`Collected` is a history of such computations, with anything in between that leaves the user's terms
and reward data alone; `Collected.booked` reads off it the list of the arrivals.
-/

namespace Delegation

open Outcome

namespace Ledger

variable {s s' s₁ s₂ s₃ : Ledger} {env : Env} {u k paid : ℕ}

/-! ### Fixed terms -/

/-- The service fee, the cap and the stakes that the rewards of a user depend on. -/
structure SameTerms (s s' : Ledger) (u : ℕ) : Prop where
  serviceFee : s'.serviceFee = s.serviceFee
  totalDelegationCap : s'.totalDelegationCap = s.totalDelegationCap
  totalActive : s'.userStakeOfType 0 .active = s.userStakeOfType 0 .active
  active : s'.userStakeOfType u .active = s.userStakeOfType u .active

theorem SameTerms.trans (h : SameTerms s s₁ u) (h' : SameTerms s₁ s₂ u) : SameTerms s s₂ u where
  serviceFee := h'.serviceFee.trans h.serviceFee
  totalDelegationCap := h'.totalDelegationCap.trans h.totalDelegationCap
  totalActive := h'.totalActive.trans h.totalActive
  active := h'.active.trans h.active

theorem SameTerms.share_eq (h : SameTerms s s' u) (x : ℕ) : s'.share u x = s.share u x := by
  simp only [share, delegatorsPart, h.serviceFee, h.totalDelegationCap, h.totalActive, h.active]

/-- Time passes: rewards may have arrived, and nothing else has happened that concerns the user. -/
structure Grown (s s' : Ledger) (u : ℕ) : Prop where
  terms : SameTerms s s' u
  data : s'.loadUserRewardData u = s.loadUserRewardData u
  cumulatedRewards_le : s.cumulatedRewards ≤ s'.cumulatedRewards

theorem Grown.checkpoint (h : Grown s s' u) : s'.userRewCheckpoint u = s.userRewCheckpoint u :=
  congrArg UserRewardData.rewardCheckpoint h.data

theorem Grown.unclaimed (h : Grown s s' u) : s'.userRewUnclaimed u = s.userRewUnclaimed u :=
  congrArg UserRewardData.unclaimedRewards h.data

/-! ### Histories of computations -/

/-- Whether a computation finds rewards that have arrived since the last one. -/
def findsRewards (s : Ledger) (u : ℕ) : ℕ :=
  if s.userRewCheckpoint u = s.cumulatedRewards then 0 else 1

/-- `Collected u s k paid s'`: from `s` to `s'` the rewards of the user have been computed any
number of times, and `k` times that found new rewards; `paid` has been claimed. -/
inductive Collected (u : ℕ) (s : Ledger) : ℕ → ℕ → Ledger → Prop
  | start : Collected u s 0 0 s
  | compute {k paid : ℕ} {s₁ s₂ s₃ : Ledger} (h : Collected u s k paid s₁) (hgrown : Grown s₁ s₂ u)
      (hcall : s₂.computeOneUserReward u = .ok s₃) :
      Collected u s (k + s₂.findsRewards u) paid s₃
  | claim {k paid : ℕ} {env : Env} {s₁ s₂ s₃ : Ledger} (h : Collected u s k paid s₁)
      (hgrown : Grown s₁ s₂ u) (hid : s₂.userId env.caller = u)
      (hcall : s₂.claimRewards env = .ok s₃) :
      Collected u s (k + s₂.findsRewards u)
        (paid + (s₃.paidOut env.caller - s₂.paidOut env.caller)) s₃

/-- What a history has added up to: the shares of the `arrivals` under the terms of the start. -/
structure Booked (s s' : Ledger) (u paid : ℕ) (arrivals : List ℕ) : Prop where
  terms : SameTerms s s' u
  checkpoint : s'.userRewCheckpoint u = s'.cumulatedRewards
  cumulatedRewards : s.cumulatedRewards + arrivals.sum = s'.cumulatedRewards
  unclaimed : paid + s'.userRewUnclaimed u =
    s.userRewUnclaimed u + (arrivals.map (s.share u)).sum

/-- The terms under which rewards can be computed and are bounded by what arrives. -/
structure FairTerms (s : Ledger) (u : ℕ) : Prop where
  serviceFee_le : s.serviceFee ≤ percentageDenominator
  totalDelegationCap_pos : 0 < s.totalDelegationCap
  totalActive_le : s.userStakeOfType 0 .active ≤ s.totalDelegationCap
  active_le : s.userStakeOfType u .active ≤ s.userStakeOfType 0 .active

/-- Under such terms the rewards can be computed at any time. -/
theorem FairTerms.computable (h : s.FairTerms u) (hterms : SameTerms s s' u)
    (hle : s'.userRewCheckpoint u ≤ s'.cumulatedRewards) : s'.Computable u := by
  refine ⟨hle, ?_, fun _ => ?_⟩
  · rw [hterms.serviceFee]
    exact h.serviceFee_le
  · rw [hterms.totalDelegationCap]
    exact h.totalDelegationCap_pos

/-- The next computation of a history books what has arrived since the last one. -/
theorem Booked.load {arrivals : List ℕ} (h : Booked s s₁ u paid arrivals) (hf : s.FairTerms u)
    (hgrown : Grown s₁ s₂ u) : s₂.loadUpdatedUserRewards u =
      .ok ⟨s₂.cumulatedRewards, s₁.userRewUnclaimed u +
        s.share u (s₂.cumulatedRewards - s₁.cumulatedRewards)⟩ := by
  have hterms := h.terms.trans hgrown.terms
  have hcp : s₂.userRewCheckpoint u = s₁.cumulatedRewards := hgrown.checkpoint.trans h.checkpoint
  have hcomp := hf.computable hterms (hcp.trans_le hgrown.cumulatedRewards_le)
  rw [hcomp.loadUpdatedUserRewards_eq, updatedUnclaimed, pending, hterms.share_eq, hcp,
    hgrown.unclaimed]

/-- A computation adds an arrival, unless it finds nothing new. -/
theorem Booked.add {arrivals : List ℕ} {paid' : ℕ} (h : Booked s s₁ u paid arrivals)
    (hgrown : Grown s₁ s₂ u) (hterms : SameTerms s₂ s₃ u)
    (hcum : s₃.cumulatedRewards = s₂.cumulatedRewards)
    (hcp : s₃.userRewCheckpoint u = s₂.cumulatedRewards)
    (hbooked : paid' + s₃.userRewUnclaimed u = paid + (s₁.userRewUnclaimed u +
      s.share u (s₂.cumulatedRewards - s₁.cumulatedRewards))) :
    ∃ arrivals', arrivals'.length = arrivals.length + s₂.findsRewards u ∧
      Booked s s₃ u paid' arrivals' := by
  have hterms' := (h.terms.trans hgrown.terms).trans hterms
  have hold : s₂.userRewCheckpoint u = s₁.cumulatedRewards := hgrown.checkpoint.trans h.checkpoint
  have hle := hgrown.cumulatedRewards_le
  have hsum := h.cumulatedRewards
  have hunclaimed := h.unclaimed
  by_cases hnew : s₂.userRewCheckpoint u = s₂.cumulatedRewards
  · refine ⟨arrivals, ?_, hterms', hcp.trans hcum.symm, ?_, ?_⟩
    · rw [findsRewards, if_pos hnew, Nat.add_zero]
    · omega
    · rw [← hold, hnew, Nat.sub_self, share_zero] at hbooked
      omega
  · refine ⟨arrivals.concat (s₂.cumulatedRewards - s₁.cumulatedRewards), ?_, hterms',
      hcp.trans hcum.symm, ?_, ?_⟩
    · rw [findsRewards, if_neg hnew, List.length_concat]
    · rw [List.concat_eq_append, List.sum_append, List.sum_singleton]
      omega
    · rw [List.concat_eq_append, List.map_append, List.sum_append, List.map_singleton,
        List.sum_singleton]
      omega

/-- **A history of computations is a list of arrivals.** -/
theorem Collected.booked (h : Collected u s k paid s') (hf : s.FairTerms u)
    (hstart : s.userRewCheckpoint u = s.cumulatedRewards) :
    ∃ arrivals, arrivals.length = k ∧ Booked s s' u paid arrivals := by
  induction h with
  | start => exact ⟨[], rfl, ⟨rfl, rfl, rfl, rfl⟩, hstart, rfl, by simp⟩
  | @compute k paid s₁ s₂ s₃ _ hgrown hcall ih =>
    obtain ⟨arrivals, rfl, hb⟩ := ih
    rw [computeOneUserReward, hb.load hf hgrown, ok_bind, pure_eq_ok] at hcall
    cases hcall
    exact hb.add hgrown ⟨rfl, rfl, rfl, rfl⟩ rfl (Function.update_self _ _ _)
      (by rw [storeUserRewardData_userRewUnclaimed, Function.update_self])
  | @claim k paid env s₁ s₂ s₃ _ hgrown hid hcall ih =>
    obtain ⟨arrivals, rfl, hb⟩ := ih
    obtain ⟨claimed, hop, hne, hload, hle⟩ := (s₂.claimRewards_spec env).of_ok hcall
    subst hid
    rw [hb.load hf hgrown, Except.ok.injEq, UserRewardData.mk.injEq] at hload
    refine hb.add hgrown ⟨rfl, rfl, rfl, rfl⟩ rfl (Function.update_self _ _ _) ?_
    simp only [storeUserRewardData_userRewUnclaimed, storeUserRewardData_paidOut,
      Function.update_self, hload.2]
    omega

/-- **Claim timing cannot be exploited.** Under fixed terms, what a user has been paid and has
unclaimed after any history of computations and claims is at most what a single computation at the
end gives, and less by at most 2 for each computation that found new rewards, by at most 4 for the
owner. The computation never fails, and adds nothing the second time. -/
theorem claim_timing (hf : s.FairTerms u) (hstart : s.userRewCheckpoint u = s.cumulatedRewards)
    (h : Collected u s k paid s') :
    (∃ once,
      ({ s with cumulatedRewards := s'.cumulatedRewards } : Ledger).loadUpdatedUserRewards u =
        .ok ⟨s'.cumulatedRewards, once⟩ ∧
      paid + s'.userRewUnclaimed u ≤ once ∧
      once ≤ paid + s'.userRewUnclaimed u + (if u = ownerUserId then 4 else 2) * k) ∧
    ∀ s₁, Grown s' s₁ u →
      (∃ s₂, s₁.computeOneUserReward u = .ok s₂ ∧ s₂.computeOneUserReward u = .ok s₂) ∧
      ∀ env s₂, s₁.userId env.caller = u → s₁.claimRewards env = .ok s₂ →
        s₂.computeOneUserReward u = .ok s₂ := by
  obtain ⟨arrivals, rfl, hb⟩ := h.booked hf hstart
  constructor
  · have hround := share_roundsDown hf.totalActive_le hf.active_le
    have hsum := hb.cumulatedRewards
    have hunclaimed := hb.unclaimed
    have hle := hround.sum_le arrivals
    have hge := hround.le_sum arrivals
    have hcomp : ({ s with cumulatedRewards := s'.cumulatedRewards } : Ledger).Computable u :=
      hf.computable ⟨rfl, rfl, rfl, rfl⟩ (hstart.trans_le (by simp only; omega))
    have honce : ({ s with cumulatedRewards := s'.cumulatedRewards } : Ledger).updatedUnclaimed u =
        s.userRewUnclaimed u + s.share u arrivals.sum := by
      have hdiff : s'.cumulatedRewards - s.userRewCheckpoint u = arrivals.sum := by omega
      exact congrArg (s.userRewUnclaimed u + s.share u ·) hdiff
    refine ⟨_, hcomp.loadUpdatedUserRewards_eq, ?_⟩
    rw [honce]
    unfold roundingLoss at hge
    omega
  · intro s₁ hgrown
    have hload := hb.load hf hgrown
    -- with the checkpoint at the present, nothing is added
    have hagain : ∀ s₂ : Ledger, s₂.userRewCheckpoint u = s₂.cumulatedRewards →
        s₂.computeOneUserReward u = .ok s₂ := fun s₂ hcp => by
      rw [computeOneUserReward, loadUpdatedUserRewards_of_eq hcp]
      simp only [ok_bind, pure_eq_ok, storeUserRewardData, loadUserRewardData,
        Function.update_eq_self]
    constructor
    · refine ⟨_, (congrArg (· >>= _) hload).trans rfl, hagain _ ?_⟩
      rw [storeUserRewardData_userRewCheckpoint, Function.update_self]
      rfl
    · intro env s₂ hid hcall
      obtain ⟨claimed, -, -, -, -⟩ := (s₁.claimRewards_spec env).of_ok hcall
      subst hid
      exact hagain _ (Function.update_self _ _ _)

/-- A delegator with 40 of 100, at a fee of 10%, computes after a reward of 3 and claims after
another one. Each time 0.8 is rounded down to nothing, while the two together would have given 2. -/
theorem claim_timing_thrice :
    ∃ s s' : Ledger, ∃ paid, Collected 2 s 2 paid s' ∧ paid + s'.userRewUnclaimed 2 = 0 ∧
      ∃ once ≤ 4, ({ s with cumulatedRewards := 6 } : Ledger).loadUpdatedUserRewards 2 =
        .ok ⟨6, once⟩ := by
  let arrive (s : Ledger) : Ledger :=
    { s with cumulatedRewards := s.cumulatedRewards + 3, balance := s.balance + 3 }
  have harrive : ∀ s : Ledger, Grown s (arrive s) 2 := fun s =>
    ⟨⟨rfl, rfl, rfl, rfl⟩, rfl, Nat.le_add_right _ _⟩
  let events : List Event :=
    [.transaction { Env.plain 1 0 9 with payment := 60 } .stake,
      .transaction { Env.plain 7 0 9 with payment := 40 } .stake]
  have hrun : ((World.deploy 1 0 2 1000 0 9 1 100).bind (·.run events)).bind (fun w =>
      let s := w.contract.ledger
      ((arrive s).computeOneUserReward 2).toOption.bind fun s₁ =>
        ((arrive s₁).claimRewards (.plain 7 0 9)).toOption.map fun s' =>
          [s.serviceFee, s.totalDelegationCap, s.userStakeOfType 0 .active,
            s.userStakeOfType 2 .active, s.userRewCheckpoint 2, s.cumulatedRewards,
            (arrive s).findsRewards 2, (arrive s₁).findsRewards 2, (arrive s₁).userId 7,
            s'.paidOut 7, (arrive s₁).paidOut 7, s'.userRewUnclaimed 2, s'.cumulatedRewards]) =
      some [1000, 100, 100, 40, 0, 0, 1, 1, 2, 0, 0, 0, 6] := by
    decide +kernel
  obtain ⟨w, -, hrun⟩ := Option.bind_eq_some_iff.mp hrun
  obtain ⟨s₁, hone, hrun⟩ := Option.bind_eq_some_iff.mp hrun
  obtain ⟨s', htwo, hobs⟩ := Option.map_eq_some_iff.mp hrun
  simp only [List.cons.injEq, and_true] at hobs
  obtain ⟨hfee, hcap, htotal, hactive, hcp, hcum, hk₁, hk₂, hid, hpaid', hpaid, hleft, hend⟩ := hobs
  have hstored := Collected.start.compute (harrive w.contract.ledger) (toOption_eq_some.mp hone)
  have hhist := hstored.claim (harrive s₁) (by exact hid) (toOption_eq_some.mp htwo)
  rw [hk₁, hk₂] at hhist
  obtain ⟨⟨once, hload, -, hle⟩, -⟩ := claim_timing
    ⟨hfee.trans_le (by decide), hcap.symm ▸ by decide, htotal.trans_le hcap.ge,
      hactive.trans_le (by rw [htotal]; decide)⟩ (hcp.trans hcum.symm) hhist
  refine ⟨w.contract.ledger, s', _, hhist, ?_, once, ?_, ?_⟩
  · simp only [Env.plain, hpaid', hpaid, hleft]
  · simp only [Env.plain, hpaid', hpaid, hleft] at hle
    exact hle
  · rw [hend] at hload
    exact hload

end Ledger

end Delegation
