import Delegation.Latest.Acts

/-!
# The stake of each user

What an act does to the stakes of the users: a stake adds its payment to that of the caller, an
unbond takes what it pays from that of the caller, and everything else moves stake between types
only. `get_user_total_stake` and `getUserStake` are the views of it.
-/

namespace Delegation

open Outcome FundStore

namespace Ledger

variable {s s' : Ledger} {env : Env} {e : Event} {nonce : UInt64} {u : ℕ}

/-! ### The views -/

/-- `get_user_total_stake` -/
def userTotalStake (s : Ledger) (userId : ℕ) : ℕ :=
  s.userStakeOfType userId .withdrawOnly + s.userStakeOfType userId .waiting +
    s.userStakeOfType userId .active + s.userStakeOfType userId .unStaked +
    s.userStakeOfType userId .deferredPayment

/-- `getUserStake` -/
def userStake (s : Ledger) (userAddress : Address) : ℕ :=
  if s.userId userAddress = 0 then 0 else s.userTotalStake (s.userId userAddress)

theorem userTotalStake_eq (hs : s.FundsSound) (hu : u ≠ 0) :
    s.userTotalStake u = s.funds.stakeOf u := by
  simp only [userTotalStake, userStakeOfType_of_ne hu, FundStore.Sound.stakeOf_eq hs u]

/-! ### Moves between types -/

theorem Rebalanced.stakeOf_eq {deferred activated : ℕ → ℕ} {toDeferred toActive : ℕ}
    (h : Rebalanced s s' deferred activated toDeferred toActive) (u : ℕ) :
    s'.funds.stakeOf u = s.funds.stakeOf u := by
  refine h.relabelled.stakeOf_eq (fun _ d d' hR => ?_) u
  rcases hR with hR | ⟨hd, rfl⟩
  · cases d <;> cases hR
    rfl
  · rw [hd]
    rfl

theorem Swept.stakeOf_eq {t : FundType} {dustLimit : ℕ} {d : FundDescription}
    {funds funds' : FundStore} (h : Swept t dustLimit d funds funds')
    (ht : t.counted = true) (hd : d.fundType.counted = true) (u : ℕ) :
    funds'.stakeOf u = funds.stakeOf u := by
  refine h.relabelled.stakeOf_eq (fun _ d₀ d' hR => ?_) u
  rw [hR.2, hd, hR.1, ht]

theorem dustAt_counted {own t : FundType} (hown : own = .waiting ∨ own = .active)
    (h : s.DustAt own (some t)) : t.counted = true := by
  rcases (dustAt_relied hown h).1 with rfl | rfl <;> rfl

theorem ActiveSwept.stakeOf_eq {dustLimit : ℕ} (h : s.ActiveSwept dustLimit s') (u : ℕ) :
    s'.funds.stakeOf u = s.funds.stakeOf u := by
  rcases h.swept with ⟨t, hat, hsw, -⟩ | ⟨-, hfunds, -⟩
  · exact Swept.stakeOf_eq hsw (dustAt_counted (.inr rfl) hat) rfl u
  · rw [hfunds]

theorem UnStaked.stakeOf_eq {amount : ℕ} (h : s.UnStaked env amount s') (u : ℕ) :
    s'.funds.stakeOf u = s.funds.stakeOf u := by
  cases h with
  | fromWaiting _ _ hsw => exact hsw.stakeOf_eq (fun _ _ hdd => by cases hdd; rfl) rfl u
  | fromActive _ _ hsw₁ _ hsw₂ _ _ _ _ _ hre =>
    rw [hre.stakeOf_eq u]
    exact (hsw₂.stakeOf_eq (fun _ _ hdd => by cases hdd; rfl) rfl u).trans
      (hsw₁.stakeOf_eq (fun _ _ hdd => by cases hdd; rfl) rfl u)

theorem clearWithdrawOnlyEnds_stakeOf (funds : FundStore) (u : ℕ) :
    funds.clearWithdrawOnlyEnds.stakeOf u = funds.stakeOf u := rfl

theorem WaitingCleaned.stakeOf_eq {dustLimit : ℕ} (h : s.WaitingCleaned env dustLimit s') (u : ℕ) :
    s'.funds.stakeOf u = s.funds.stakeOf u := by
  cases h with
  | swept _ _ hat _ hsw =>
    exact Swept.stakeOf_eq hsw (dustAt_counted (.inl rfl) hat) rfl u
  | cleared _ _ _ hfunds =>
    rcases hfunds with rfl | rfl
    · rfl
    · exact clearWithdrawOnlyEnds_stakeOf s.funds u

theorem ActiveCleaned.stakeOf_eq {dustLimit : ℕ} (h : s.ActiveCleaned env dustLimit s') (u : ℕ) :
    s'.funds.stakeOf u = s.funds.stakeOf u := by
  obtain ⟨-, -, hset, hsw, hre⟩ := h
  rw [hre.stakeOf_eq u, hsw.stakeOf_eq u, hset.funds]

/-- **No tick changes the stake of anybody.** -/
theorem Ticked.stakeOf_eq (h : Ticked nonce s s') (u : ℕ) :
    s'.funds.stakeOf u = s.funds.stakeOf u := by
  cases h with
  | activated _ _ hsw => exact hsw.stakeOf_eq (fun _ _ hdd => by cases hdd; rfl) rfl u
  | unstakedDeferred _ _ hsw =>
    exact hsw.stakeOf_eq (fun d _ hdd => by cases d <;> cases hdd; rfl) rfl u
  | activeDeferred _ _ hsw => exact hsw.stakeOf_eq (fun _ _ hdd => by cases hdd; rfl) rfl u
  | _ => rfl

/-! ### Payments in and out -/

theorem Staked.userId_eq (h : s.Staked env s') :
    s'.userId env.caller ≠ 0 ∧ (∀ a, a ≠ env.caller → s'.userId a = s.userId a) ∧
      (s.userId env.caller = 0 ∧ s'.userId env.caller = s.numUsers + 1 ∧
          s'.numUsers = s.numUsers + 1 ∨
        s.userId env.caller = s'.userId env.caller ∧ s'.numUsers = s.numUsers) := by
  obtain ⟨-, hdep, -, hre⟩ := h
  rename_i s₁ userId _ _ _ _
  have hid : s'.userId = s₁.userId := by rw [hre.frame]
  have hnum : s'.numUsers = s₁.numUsers := by rw [hre.frame]
  rw [hid, hnum, hdep.userId_eq]
  exact ⟨hdep.userId_ne, hdep.others, hdep.numUsers⟩

theorem Staked.stakeOf_eq (hs : s.FundsSound) (h : s.Staked env s') (u : ℕ) :
    s'.funds.stakeOf u =
      s.funds.stakeOf u + if u = s'.userId env.caller then env.payment else 0 := by
  obtain ⟨-, hdep, -, hre⟩ := h
  rename_i s₁ userId _ _ _ _
  have hid : s'.userId env.caller = userId := by
    rw [← hdep.userId_eq, hre.frame]
  rw [hre.stakeOf_eq u, hdep.funds, hid, stakeOf, stakeOf,
    FundStore.Sound.createWaiting_holding hs]
  by_cases hu : userId = u
  · simp [hu, FundDescription.fundType, FundType.counted]
  · simp [hu, Ne.symm hu]

theorem UnBonded.stakeOf_eq {paid : ℕ} (h : s.UnBonded env s' paid) (u : ℕ) :
    s'.funds.stakeOf u + (if u = s.userId env.caller then paid else 0) = s.funds.stakeOf u := by
  obtain ⟨-, hsw, -, -, hpaid, -⟩ := h
  rw [← hsw.stakeOf_eq (fun d _ hdd => ?_) rfl u]
  · exact hpaid.stakeOf_eq rfl u
  · cases d <;> simp only [eligibleDeferredToWithdraw, reduceCtorEq] at hdd
    split_ifs at hdd
    cases hdd
    rfl

/-- The EGLD that is sent to the user when the user calls `unBond`. -/
def withdrawn (s s' : Ledger) (e : Event) (userId : ℕ) : ℕ :=
  match e with
  | .transaction env .unBond =>
      if s.userId env.caller = userId then s'.paidOut env.caller - s.paidOut env.caller else 0
  | _ => 0

/-- The payment of the user when the user calls `stake`. A new user has its id after the call. -/
def deposited (s' : Ledger) (e : Event) (userId : ℕ) : ℕ :=
  match e with
  | .transaction env .stake => if s'.userId env.caller = userId then env.payment else 0
  | _ => 0

/-- Acts give out ids in order and never change one. -/
theorem Act.userId_cases (h : s.Act e s') (a : Address) :
    s'.userId a = s.userId a ∨ s.userId a = 0 ∧ s'.userId a = s.numUsers + 1 := by
  cases h with
  | @staked env _ h =>
    obtain ⟨-, hothers, hcases⟩ := h.userId_eq
    by_cases ha : a = env.caller
    · subst ha
      rcases hcases with ⟨hold, hnew, -⟩ | ⟨hold, -⟩
      · exact .inr ⟨hold, hnew⟩
      · exact .inl hold.symm
    · exact .inl (hothers a ha)
  | kept _ h => rw [h.frame]; exact .inl rfl
  | unStaked _ h =>
    cases h with
    | fromWaiting => exact .inl rfl
    | fromActive _ _ _ hset _ _ _ _ _ _ hre => rw [hre.frame, hset.frame]; exact .inl rfl
  | unBonded _ h => obtain ⟨-, -, -, -, -, -⟩ := h; exact .inl rfl
  | claimed _ h => obtain ⟨-, -, -, -⟩ := h; exact .inl rfl
  | operated _ _ _ hopened => cases hopened <;> exact .inl rfl
  | waitingCleaned _ h => cases h <;> exact .inl rfl
  | activeCleaned _ h =>
    obtain ⟨-, -, hset, hsw, hre⟩ := h
    rw [hre.frame, hsw.frame, hset.frame]
    exact .inl rfl
  | _ => exact .inl rfl

/-- **What an act does to the stakes.** -/
theorem Act.stakeOf_cases (hs : s.FundsSound) (h : s.Act e s') :
    (∃ env, e = .transaction env .stake ∧ s'.userId env.caller ≠ 0 ∧
      ∀ u, s'.funds.stakeOf u =
        s.funds.stakeOf u + if u = s'.userId env.caller then env.payment else 0) ∨
    (∃ env paid, e = .transaction env .unBond ∧ s.userId env.caller ≠ 0 ∧
      s'.paidOut = Function.update s.paidOut env.caller (s.paidOut env.caller + paid) ∧
      ∀ u, s'.funds.stakeOf u + (if u = s.userId env.caller then paid else 0) =
        s.funds.stakeOf u) ∨
    (∀ env, e ≠ .transaction env .stake) ∧ (∀ env, e ≠ .transaction env .unBond) ∧
      ∀ u, s'.funds.stakeOf u = s.funds.stakeOf u := by
  cases h with
  | staked h => exact .inl ⟨_, rfl, h.userId_eq.1, h.stakeOf_eq (s := s.credit _) hs⟩
  | unBonded _ h =>
    refine .inr (.inl ⟨_, _, rfl, ?_, ?_, h.stakeOf_eq⟩) <;> obtain ⟨hid, -, -, -, -, -⟩ := h
    · exact hid
    · rfl
  | kept hcall h =>
    refine .inr (.inr ⟨?_, ?_, fun u => ?_⟩)
    · rintro _ ⟨⟩
      cases hcall
    · rintro _ ⟨⟩
      cases hcall
    · rw [h.frame]
      rfl
  | unStaked _ h => exact .inr (.inr ⟨nofun, nofun, h.stakeOf_eq⟩)
  | claimed _ h =>
    obtain ⟨-, -, -, -⟩ := h
    exact .inr (.inr ⟨nofun, nofun, fun _ => rfl⟩)
  | @operated _ op _ _ _ _ _ hopened =>
    refine .inr (.inr ⟨?_, ?_, fun u => ?_⟩)
    · cases op <;> exact nofun
    · cases op <;> exact nofun
    · rw [withOp_funds, hopened.funds]
  | waitingCleaned _ h => exact .inr (.inr ⟨nofun, nofun, h.stakeOf_eq⟩)
  | activeCleaned _ h => exact .inr (.inr ⟨nofun, nofun, h.stakeOf_eq⟩)
  | answered | received | rewarded | continued =>
    exact .inr (.inr ⟨nofun, nofun, fun _ => rfl⟩)

end Ledger

end Delegation
