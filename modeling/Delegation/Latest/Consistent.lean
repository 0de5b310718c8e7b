import Delegation.Latest.Stakes

/-!
# What holds in every reachable state

`Consistent` collects what no call can break, whoever makes it: the funds are sound, the stored
checkpoint of dust cleanup is zero or an id given out, ids belong to one address each and only they
have stake, and the books of the rewards are kept: nobody is ahead of the rewards that have arrived,
there are none in bootstrap mode, and the running sum of an unfinished computation is the sum of
what is stored.

`Reachable.ledger_invariant` is the induction for everything that needs more: an invariant that acts
and ticks keep, on consistent ledgers, holds in every reachable state.
-/

namespace Delegation

open Outcome FundStore

namespace Ledger

variable {s s' : Ledger} {env : Env} {e : Event} {nonce : UInt64} {u : ℕ}

/-! ### Users -/

/-- Ids are given out from 1 on, one to each address, and only they have stake. -/
structure UsersKnown (s : Ledger) : Prop where
  numUsers_pos : 0 < s.numUsers
  userId_le : ∀ a, s.userId a ≤ s.numUsers
  userId_inj : ∀ a b, s.userId a ≠ 0 → s.userId a = s.userId b → a = b
  stranger : ∀ u, u = 0 ∨ s.numUsers < u → s.funds.stakeOf u = 0

theorem UsersKnown.userTotal_eq_zero (h : s.UsersKnown) (hs : s.FundsSound)
    (hu : u = 0 ∨ s.numUsers < u) {t : FundType} (ht : t.counted = true) :
    s.funds.userTotal u t = 0 := by
  have := FundStore.Sound.userTotal_le_stakeOf hs u ht
  have := h.stranger u hu
  omega

/-- Ids and stakes stay. -/
theorem UsersKnown.of_eq (h : s.UsersKnown) (hid : s'.userId = s.userId)
    (hnum : s'.numUsers = s.numUsers)
    (hstake : ∀ u, s'.funds.stakeOf u ≤ s.funds.stakeOf u) : s'.UsersKnown where
  numUsers_pos := hnum ▸ h.numUsers_pos
  userId_le a := by rw [hid, hnum]; exact h.userId_le a
  userId_inj a b := by rw [hid]; exact h.userId_inj a b
  stranger u hu := Nat.le_zero.mp ((hstake u).trans (h.stranger u (hnum ▸ hu)).le)

theorem UsersKnown.staked (h : s.UsersKnown) (hs : s.FundsSound) (hst : s.Staked env s') :
    s'.UsersKnown := by
  obtain ⟨hne, hothers, hcases⟩ := hst.userId_eq
  have hle : s'.userId env.caller ≤ s'.numUsers ∧ s.numUsers ≤ s'.numUsers := by
    rcases hcases with ⟨-, hnew, hnum⟩ | ⟨hold, hnum⟩
    · omega
    · rw [← hold, hnum]
      exact ⟨h.userId_le _, le_rfl⟩
  refine ⟨h.numUsers_pos.trans_le hle.2, fun a => ?_, fun a b ha heq => ?_, fun u hu => ?_⟩
  · by_cases hcaller : a = env.caller
    · exact hcaller ▸ hle.1
    · rw [hothers a hcaller]
      exact (h.userId_le a).trans hle.2
  · -- the id of the caller is new, or its own
    have hfresh : ∀ b, b ≠ env.caller → s.userId b ≠ s'.userId env.caller := fun b hb heq' => by
      rcases hcases with ⟨-, hnew, -⟩ | ⟨hold, -⟩
      · have := h.userId_le b
        omega
      · exact hb (h.userId_inj b env.caller (by rw [heq']; exact hne) (heq'.trans hold.symm))
    by_cases ha' : a = env.caller <;> by_cases hb' : b = env.caller
    · rw [ha', hb']
    · rw [ha', hothers b hb'] at heq
      exact absurd heq.symm (hfresh b hb')
    · rw [hb', hothers a ha'] at heq
      exact absurd heq (hfresh a ha')
    · rw [hothers a ha', hothers b hb'] at heq
      rw [hothers a ha'] at ha
      exact h.userId_inj a b ha heq
  · rw [hst.stakeOf_eq hs, h.stranger u (by omega), if_neg (by omega)]

/-! ### Books -/

/-- What the state of an unfinished computation of all rewards stands for. -/
structure ComputedTo (s : Ledger) (data : ComputeAllRewardsData) : Prop where
  lastId_le : data.lastId ≤ s.numUsers
  checkpoint_le : data.rewardsCheckpoint ≤ s.cumulatedRewards
  checkpoint : ∀ u ∈ Finset.Icc 1 data.lastId, s.userRewCheckpoint u = data.rewardsCheckpoint
  sumUnclaimed : data.sumUnclaimed = ∑ u ∈ Finset.Icc 1 data.lastId, s.userRewUnclaimed u

theorem ComputedTo.congr {data : ComputeAllRewardsData} (h : s.ComputedTo data)
    (hnum : s.numUsers ≤ s'.numUsers) (hcum : s.cumulatedRewards ≤ s'.cumulatedRewards)
    (hcp : s'.userRewCheckpoint = s.userRewCheckpoint)
    (hunc : s'.userRewUnclaimed = s.userRewUnclaimed) : s'.ComputedTo data where
  lastId_le := h.lastId_le.trans hnum
  checkpoint_le := h.checkpoint_le.trans hcum
  checkpoint := by rw [hcp]; exact h.checkpoint
  sumUnclaimed := by rw [hunc]; exact h.sumUnclaimed

theorem computedTo_new (s : Ledger) : s.ComputedTo (.new s.cumulatedRewards) where
  lastId_le := Nat.zero_le _
  checkpoint_le := le_rfl
  checkpoint u hu := by
    have := Finset.mem_Icc.mp hu
    simp only [ComputeAllRewardsData.new] at this
    omega
  sumUnclaimed := rfl

/-- One more user. -/
theorem ComputedTo.next {data : ComputeAllRewardsData} {userData : UserRewardData}
    (h : s.ComputedTo data) (hcp : data.rewardsCheckpoint = s.cumulatedRewards)
    (hlt : data.lastId < s.numUsers)
    (hload : s.loadUpdatedUserRewards (data.lastId + 1) = .ok userData) :
    (s.storeUserRewardData (data.lastId + 1) userData).ComputedTo
      { data with
        sumUnclaimed := data.sumUnclaimed + userData.unclaimedRewards
        lastId := data.lastId + 1 } where
  lastId_le := hlt
  checkpoint_le := h.checkpoint_le
  checkpoint u hu := by
    by_cases hu' : u = data.lastId + 1
    · simp [hu', loadUpdatedUserRewards_checkpoint hload, hcp]
    · rw [Finset.mem_Icc] at hu
      simp only [storeUserRewardData_userRewCheckpoint, Function.update_of_ne hu']
      exact h.checkpoint u (Finset.mem_Icc.mpr ⟨hu.1, by have := hu.2; simp only at this; omega⟩)
  sumUnclaimed := by
    have hrest : ∑ u ∈ Finset.Icc 1 data.lastId,
        (s.storeUserRewardData (data.lastId + 1) userData).userRewUnclaimed u =
          ∑ u ∈ Finset.Icc 1 data.lastId, s.userRewUnclaimed u := by
      refine Finset.sum_congr rfl fun u hu => ?_
      have := Finset.mem_Icc.mp hu
      simp only [storeUserRewardData_userRewUnclaimed]
      rw [Function.update_of_ne (by omega)]
    rw [Finset.sum_Icc_succ_top (by omega), hrest, h.sumUnclaimed]
    simp

/-- The books of the rewards. -/
structure BooksKept (s : Ledger) : Prop where
  checkpoint_le : ∀ u, s.userRewCheckpoint u ≤ s.cumulatedRewards
  serviceFee_le : s.serviceFee ≤ percentageDenominator
  bootstrap : s.bootstrapMode = true → s.cumulatedRewards = 0 ∧ s.globalOpCheckpoint = .none
  unclaimed : ∀ u, s.numUsers < u → s.userRewUnclaimed u = 0
  newServiceFee_le : ∀ newServiceFee data,
    s.globalOpCheckpoint = .changeServiceFee newServiceFee data →
      newServiceFee ≤ percentageDenominator
  computing : ∀ data, s.globalOpCheckpoint.computing = some data → s.ComputedTo data

/-- There are no rewards in bootstrap mode, so nobody is behind. -/
theorem BooksKept.upToDate (h : s.BooksKept) : s.UpToDateInBootstrap := fun hb u => by
  have := h.checkpoint_le u
  have := (h.bootstrap hb).1
  omega

theorem BooksKept.bootstrapMode (h : s.BooksKept) (hop : s.globalOpCheckpoint ≠ .none) :
    s.bootstrapMode = false := by
  by_contra hb
  exact hop (h.bootstrap (by simpa using hb)).2

/-- The books after an ordinary act. -/
theorem BooksKept.of_ordinary (h : s.BooksKept) (hord : Ordinary s s')
    (hunc : ∀ u, s'.numUsers < u → s'.userRewUnclaimed u = 0)
    (hcomp : ∀ data, s.globalOpCheckpoint.computing = some data → s'.ComputedTo data) :
    s'.BooksKept where
  checkpoint_le u := by
    rw [hord.cumulatedRewards]
    exact (hord.checkpoint u).elim (fun heq => heq.trans_le (h.checkpoint_le u)) fun heq => heq.le
  serviceFee_le := hord.serviceFee.trans_le h.serviceFee_le
  bootstrap hb := by
    rw [hord.cumulatedRewards, hord.globalOpCheckpoint]
    exact h.bootstrap (hord.bootstrapMode hb)
  unclaimed := hunc
  newServiceFee_le := by
    rw [hord.globalOpCheckpoint]
    exact h.newServiceFee_le
  computing := by
    rw [hord.globalOpCheckpoint]
    exact hcomp

/-- A user without active stake, who is not the owner, earns nothing. -/
theorem loadUpdatedUserRewards_idle {data : UserRewardData} (hu : u ≠ 0)
    (howner : u ≠ ownerUserId) (hactive : s.funds.userTotal u .active = 0)
    (h : s.loadUpdatedUserRewards u = .ok data) : data.unclaimedRewards = s.userRewUnclaimed u := by
  have hactive' : s.userStakeOfType u .active = 0 := by rw [userStakeOfType_of_ne hu, hactive]
  obtain ⟨new, -, h⟩ := bind_eq_ok.mp h
  split_ifs at h
  · cases h
    rfl
  · obtain ⟨⟨serviceRewards, d⟩, -, h⟩ := bind_eq_ok.mp h
    obtain ⟨ownerRewards, hownerRewards, h⟩ := bind_eq_ok.mp h
    obtain ⟨delegatorRewards, hdelegator, h⟩ := bind_eq_ok.mp h
    simp only [ownerExtraRewards_eq, if_neg howner, Except.ok.injEq] at hownerRewards
    simp only [delegatorNewRewards, hactive', lt_irrefl, if_false, Except.ok.injEq] at hdelegator
    cases h
    simp [loadUserRewardData, ← hownerRewards, ← hdelegator]

theorem Neutral.unclaimed_eq (h : Neutral s s' u) (hu : u ≠ 0) (howner : u ≠ ownerUserId)
    (hactive : s.funds.userTotal u .active = 0) :
    s'.userRewUnclaimed u = s.userRewUnclaimed u := by
  rcases h with ⟨hdata, -⟩ | ⟨-, hload⟩
  · exact congrArg UserRewardData.unclaimedRewards hdata
  · exact loadUpdatedUserRewards_idle hu howner hactive hload

/-- A neutral act does not give strangers anything. -/
theorem BooksKept.unclaimed_of_neutral (h : s.BooksKept) (hk : s.UsersKnown) (hs : s.FundsSound)
    (hnum : s.numUsers ≤ s'.numUsers) (hneutral : ∀ u, s.numUsers < u → Neutral s s' u) (u : ℕ)
    (hu : s'.numUsers < u) : s'.userRewUnclaimed u = 0 := by
  have hlt : s.numUsers < u := hnum.trans_lt hu
  have hpos := hk.numUsers_pos
  rw [(hneutral u hlt).unclaimed_eq (by omega) (by simp only [ownerUserId]; omega)
    (hk.userTotal_eq_zero hs (.inr hlt) rfl)]
  exact h.unclaimed u hlt

/-! ### The checkpoint of dust cleanup -/

theorem DustTracked.of_evolves (h : s.DustTracked)
    (hcp : s'.dustCleanupCheckpoint = s.dustCleanupCheckpoint)
    (hev : Evolves s.funds s'.funds) : s'.DustTracked where
  le_max := by
    rw [hcp]
    exact h.le_max.trans hev.fundMaxId
  fundType := by
    rw [hcp]
    intro hlive
    obtain ⟨hlive', hkey⟩ := hev.item _ h.le_max hlive
    have htype : (s'.funds.fundById s.dustCleanupCheckpoint).fundType =
        (s.funds.fundById s.dustCleanupCheckpoint).fundType := congrArg Prod.snd hkey
    rw [htype]
    exact h.fundType hlive'

theorem dustTracked_of_has (hs : s.FundsSound) {t : FundType} (ht : t = .waiting ∨ t = .active)
    (hcp : s.dustCleanupCheckpoint = 0 ∨ (Source.type t).Has s.funds s.dustCleanupCheckpoint) :
    s.DustTracked := by
  obtain ⟨lay, hl, -⟩ := hs
  rcases hcp with h0 | hhas
  · refine ⟨h0.le.trans (Nat.zero_le _), fun hlive => absurd h0 (hl.ne_zero hlive)⟩
  · exact ⟨hl.le_max _ hhas.1, fun _ => hhas.2.1 ▸ ht⟩

theorem evolves_clearWithdrawOnlyEnds (funds : FundStore) :
    Evolves funds funds.clearWithdrawOnlyEnds := ⟨le_rfl, fun _ _ h => ⟨h, rfl⟩⟩

theorem WaitingCleaned.sound {dustLimit : ℕ} (h : s.WaitingCleaned env dustLimit s')
    (hs : s.FundsSound) : s'.FundsSound := by
  cases h with
  | swept _ _ _ hsound => exact hsound
  | cleared _ _ _ hfunds =>
    rcases hfunds with rfl | rfl
    · exact hs
    · obtain ⟨lay, hl, hco⟩ := hs
      exact ⟨lay, hl.clearWithdrawOnlyEnds fun h => absurd rfl h, hco⟩

theorem WaitingCleaned.dustTracked {dustLimit : ℕ} (h : s.WaitingCleaned env dustLimit s')
    (hs : s.FundsSound) (hd : s.DustTracked) : s'.DustTracked := by
  have hs' := h.sound hs
  cases h with
  | swept _ _ hat hsound _ hcp =>
    exact dustTracked_of_has hsound (dustAt_relied (.inl rfl) hat).1 hcp
  | @cleared funds checkpoint _ _ hat hfunds hcp =>
    rcases hcp with rfl | rfl
    · exact dustTracked_of_has hs' (.inl rfl) (.inl rfl)
    · refine hd.of_evolves rfl ?_
      rcases hfunds with rfl | rfl
      · exact .refl _
      · exact evolves_clearWithdrawOnlyEnds _

theorem ActiveCleaned.dustTracked {dustLimit : ℕ} (h : s.ActiveCleaned env dustLimit s')
    (hd : s.DustTracked) : s'.DustTracked := by
  obtain ⟨-, -, hset, hsw, hre⟩ := h
  rename_i mid swept _ _ _ _
  have hmid : mid.DustTracked := by
    rw [hset.frame]
    exact ⟨hd.le_max, hd.fundType⟩
  have hcp : s'.dustCleanupCheckpoint = swept.dustCleanupCheckpoint := by rw [hre.frame]
  refine DustTracked.of_evolves ?_ hcp hre.evolves
  rcases hsw.swept with ⟨t, hat, -, hcp⟩ | ⟨-, hfunds, h0 | hsame⟩
  · exact dustTracked_of_has hsw.sound (dustAt_relied (.inr rfl) hat).1 hcp
  · exact dustTracked_of_has hsw.sound (.inl rfl) (.inl h0)
  · exact hmid.of_evolves hsame (hfunds ▸ .refl _)

/-! ### Consistency -/

/-- What every run keeps. -/
structure Consistent (s : Ledger) : Prop where
  sound : s.FundsSound
  dust : s.DustTracked
  users : s.UsersKnown
  books : s.BooksKept

theorem Consistent.userTotal_zero (h : s.Consistent) {t : FundType} (ht : t.counted = true) :
    s.funds.userTotal 0 t = 0 := h.users.userTotal_eq_zero h.sound (.inl rfl) ht

/-- An ordinary act on the funds of the users there are. -/
theorem Consistent.of_ordinary (h : s.Consistent) (hord : Ordinary s s') (hs' : s'.FundsSound)
    (hdust : s'.DustTracked) (hid : s'.userId = s.userId) (hnum : s'.numUsers = s.numUsers)
    (hstake : ∀ u, s'.funds.stakeOf u ≤ s.funds.stakeOf u)
    (hneutral : ∀ u, s.numUsers < u → Neutral s s' u)
    (hcomp : ∀ data, s.globalOpCheckpoint.computing = some data → s'.ComputedTo data) :
    s'.Consistent where
  sound := hs'
  dust := hdust
  users := h.users.of_eq hid hnum hstake
  books := h.books.of_ordinary hord
    (h.books.unclaimed_of_neutral h.users h.sound hnum.ge hneutral) hcomp

/-- While no operation is in progress, there is no computation to spoil. -/
theorem computing_of_none (hop : s.globalOpCheckpoint = .none) {P : ComputeAllRewardsData → Prop}
    (data : ComputeAllRewardsData) (h : s.globalOpCheckpoint.computing = some data) : P data := by
  rw [hop] at h
  cases h

theorem Consistent.staked (h : s.Consistent) (hst : s.Staked env s') : s'.Consistent := by
  have hord := hst.ordinary
  have hneutral : ∀ u, u ≠ 0 → Neutral s s' u := fun u =>
    hst.neutral h.sound h.books.upToDate
  have husers := h.users.staked h.sound hst
  have hnum : s.numUsers ≤ s'.numUsers := by
    rcases hst.userId_eq.2.2 with ⟨-, -, hnum⟩ | ⟨-, hnum⟩ <;> omega
  obtain ⟨hop, hdep, -, hre⟩ := hst
  have hpos := h.users.numUsers_pos
  have hcp : s'.dustCleanupCheckpoint = s.dustCleanupCheckpoint := by rw [hre.frame, hdep.frame]
  exact {
    sound := hre.sound
    dust := h.dust.of_evolves hcp ((hdep.evolves h.sound).trans hre.evolves)
    users := husers
    books := h.books.of_ordinary hord (h.books.unclaimed_of_neutral h.users h.sound hnum
      fun u hu => hneutral u (by omega)) fun data => computing_of_none hop data }

theorem Consistent.unStaked {amount : ℕ} (h : s.Consistent) (hun : s.UnStaked env amount s') :
    s'.Consistent := by
  have hneutral : ∀ u, s.numUsers < u → Neutral s s' u := fun u hu =>
    hun.neutral h.books.upToDate (by omega)
  have hord := hun.ordinary
  have hstake := hun.stakeOf_eq
  cases hun with
  | fromWaiting hop _ hsw =>
    exact h.of_ordinary hord hsw.sound (h.dust.of_evolves rfl hsw.evolves) rfl rfl
      (fun u => (hstake u).le) hneutral fun data => computing_of_none hop data
  | @fromActive funds₁ funds₂ _ _ _ _ _ _ _ _ mid _ hop _ hsw₁ hset hsw₂ _ _ _ _ _ hre =>
    have hframe := hre.frame
    have hmid := hset.frame
    have hfunds : mid.funds = funds₁ := hset.funds
    refine h.of_ordinary hord hre.sound (h.dust.of_evolves ?_ ?_) ?_ ?_ (fun u => (hstake u).le)
      hneutral fun data => computing_of_none hop data
    · rw [hframe, hmid]
    · exact (hsw₁.evolves.trans hsw₂.evolves).trans hre.evolves
    · rw [hframe, hmid]
    · rw [hframe, hmid]

theorem Consistent.unBonded {paid : ℕ} (h : s.Consistent) (hun : s.UnBonded env s' paid) :
    s'.Consistent := by
  have hneutral : ∀ u, s.numUsers < u → Neutral s s' u := fun u hu => hun.neutral (by omega)
  have hord := hun.ordinary
  have hstake : ∀ u, s'.funds.stakeOf u ≤ s.funds.stakeOf u := fun u =>
    (Nat.le_add_right _ _).trans (hun.stakeOf_eq u).le
  obtain ⟨-, hsw, -, hsound, hpaid, -⟩ := hun
  exact h.of_ordinary hord hsound (h.dust.of_evolves rfl (hsw.evolves.trans hpaid.evolves)) rfl rfl
    hstake hneutral fun data hdata => (h.books.computing data hdata).congr le_rfl le_rfl rfl rfl

theorem Consistent.claimed {claimed : ℕ} (h : s.Consistent) (hcl : s.Claimed env s' claimed) :
    s'.Consistent := by
  have hneutral : ∀ u, s.numUsers < u → Neutral s s' u := fun u hu => by
    have := h.users.userId_le env.caller
    exact hcl.neutral (by omega)
  have hord := hcl.ordinary
  obtain ⟨hop, -, -, -⟩ := hcl
  exact h.of_ordinary hord h.sound (h.dust.of_evolves rfl (.refl _)) rfl rfl (fun _ => le_rfl)
    hneutral fun data => computing_of_none hop data

theorem WaitingCleaned.neutral_stranger {dustLimit : ℕ} (hw : s.WaitingCleaned env dustLimit s')
    (h : s.Consistent) (hu : s.numUsers < u) : Neutral s s' u := by
  have hpos := h.users.numUsers_pos
  have hactive := h.users.userTotal_eq_zero h.sound (.inr hu) (t := .active) rfl
  have hactive' : s'.funds.userTotal u .active = 0 := by
    have := FundStore.Sound.userTotal_le_stakeOf (hw.sound h.sound) u (t := .active) rfl
    have := hw.stakeOf_eq u
    have := h.users.stranger u (.inr hu)
    omega
  have hne : u ≠ ownerUserId := by
    simp only [ownerUserId]
    omega
  have hu0 : u ≠ 0 := by omega
  refine .inl ?_
  cases hw <;>
  · simp only at hactive'
    refine ⟨rfl, ?_⟩
    simp only [rewardTerms, if_neg hne, userStakeOfType_of_ne hu0, hactive, hactive']

theorem Consistent.waitingCleaned {dustLimit : ℕ} (h : s.Consistent)
    (hw : s.WaitingCleaned env dustLimit s') : s'.Consistent := by
  have hneutral : ∀ u, s.numUsers < u → Neutral s s' u := fun u => hw.neutral_stranger h
  have hdust := hw.dustTracked h.sound h.dust
  have hframe : s'.userId = s.userId ∧ s'.numUsers = s.numUsers ∧ s.globalOpCheckpoint = .none := by
    cases hw with
    | swept _ hop => exact ⟨rfl, rfl, hop⟩
    | cleared _ hop => exact ⟨rfl, rfl, hop⟩
  exact h.of_ordinary hw.ordinary (hw.sound h.sound) hdust hframe.1 hframe.2.1
    (fun u => (hw.stakeOf_eq u).le) hneutral fun data => computing_of_none hframe.2.2 data

theorem Consistent.activeCleaned {dustLimit : ℕ} (h : s.Consistent)
    (ha : s.ActiveCleaned env dustLimit s') : s'.Consistent := by
  have hneutral : ∀ u, s.numUsers < u → Neutral s s' u := fun u hu =>
    ha.neutral h.books.upToDate (by omega)
  have hdust := ha.dustTracked h.dust
  have hord := ha.ordinary
  have hstake := ha.stakeOf_eq
  obtain ⟨-, hop, hset, hsw, hre⟩ := ha
  refine h.of_ordinary hord hre.sound hdust ?_ ?_ (fun u => (hstake u).le) hneutral
    fun data => computing_of_none hop data
  · rw [hre.frame, hsw.frame, hset.frame]
  · rw [hre.frame, hsw.frame, hset.frame]

/-- Opening an operation writes a setting or the checkpoint, or ends bootstrap mode. -/
theorem Consistent.opened {op : Operation} {s₀ : Ledger} {orc : GlobalOpCheckpoint}
    (h : s.Consistent) (ho : s.Opened op s₀ orc) : (s₀.withOp orc).Consistent := by
  have hb := h.books
  refine ⟨ho.sound h.sound, ?_, ?_, ?_⟩
  · cases ho <;> exact h.dust.of_evolves rfl (.refl _)
  · cases ho <;> exact h.users.of_eq rfl rfl fun _ => le_rfl
  · cases ho with
    | capStored =>
      exact ⟨hb.checkpoint_le, hb.serviceFee_le, fun hb' => ⟨(hb.bootstrap hb').1, rfl⟩,
        hb.unclaimed, nofun, nofun⟩
    | bootstrapEnded =>
      exact ⟨hb.checkpoint_le, hb.serviceFee_le, nofun, hb.unclaimed, nofun, nofun⟩
    | capKept =>
      exact ⟨hb.checkpoint_le, hb.serviceFee_le, fun hb' => ⟨(hb.bootstrap hb').1, rfl⟩,
        hb.unclaimed, nofun, nofun⟩
    | capChange _ _ hplan =>
      refine ⟨hb.checkpoint_le, hb.serviceFee_le, nofun, hb.unclaimed, nofun, fun data hdata => ?_⟩
      cases hplan <;> cases hdata <;> exact (computedTo_new s).congr le_rfl le_rfl rfl rfl
    | feeKept =>
      exact ⟨hb.checkpoint_le, hb.serviceFee_le, fun hb' => ⟨(hb.bootstrap hb').1, rfl⟩,
        hb.unclaimed, nofun, nofun⟩
    | feeStored hle =>
      exact ⟨hb.checkpoint_le, hle, fun hb' => ⟨(hb.bootstrap hb').1, rfl⟩, hb.unclaimed, nofun,
        nofun⟩
    | feeChange hle _ hboot =>
      refine ⟨hb.checkpoint_le, hb.serviceFee_le, fun hb' => ?_, hb.unclaimed, ?_,
        fun data hdata => ?_⟩
      · exact absurd (hboot.symm.trans hb') (by simp)
      · rintro _ _ ⟨⟩
        exact hle
      · cases hdata
        exact (computedTo_new s).congr le_rfl le_rfl rfl rfl

/-- **Acts keep a ledger consistent.** -/
theorem Consistent.act (h : s.Consistent) (ha : s.Act e s') : s'.Consistent := by
  have hcredit : ∀ egld, (s.credit egld).Consistent := fun egld =>
    ⟨h.sound, ⟨h.dust.le_max, h.dust.fundType⟩, h.users.of_eq rfl rfl fun _ => le_rfl,
      ⟨h.books.checkpoint_le, h.books.serviceFee_le, h.books.bootstrap, h.books.unclaimed,
        h.books.newServiceFee_le,
        fun data hdata => (h.books.computing data hdata).congr le_rfl le_rfl rfl rfl⟩⟩
  cases ha with
  | answered egld => exact hcredit egld
  | received => exact hcredit _
  | @rewarded amount hboot =>
    have hle : ∀ {n}, n ≤ s.cumulatedRewards → n ≤ s.cumulatedRewards + amount := fun hn =>
      hn.trans (Nat.le_add_right _ _)
    refine ⟨h.sound, ⟨h.dust.le_max, h.dust.fundType⟩, h.users.of_eq rfl rfl fun _ => le_rfl,
      fun u => hle (h.books.checkpoint_le u), h.books.serviceFee_le, fun hb => ?_,
      h.books.unclaimed, h.books.newServiceFee_le, fun data hdata =>
        (h.books.computing data hdata).congr le_rfl (hle le_rfl) rfl rfl⟩
    exact absurd (hboot.symm.trans hb) (by simp)
  | kept _ hk =>
    rw [hk.frame]
    have hc := hcredit 0
    exact ⟨hc.sound, ⟨hc.dust.le_max, hc.dust.fundType⟩, hc.users.of_eq rfl rfl fun _ => le_rfl,
      ⟨hc.books.checkpoint_le, hc.books.serviceFee_le, hc.books.bootstrap, hc.books.unclaimed,
        hc.books.newServiceFee_le,
        fun data hdata => (hc.books.computing data hdata).congr le_rfl le_rfl rfl rfl⟩⟩
  | staked hst => exact (hcredit _).staked hst
  | unStaked _ hun => exact h.unStaked hun
  | unBonded _ hun => exact h.unBonded hun
  | claimed _ hcl => exact h.claimed hcl
  | operated _ _ _ hopened => exact h.opened hopened
  | continued => exact h
  | waitingCleaned _ hw => exact h.waitingCleaned hw
  | activeCleaned _ ha => exact h.activeCleaned ha

theorem computing_ne_none {op : GlobalOpCheckpoint} {data : ComputeAllRewardsData}
    (h : op.computing = some data) : op ≠ .none := by
  rintro rfl
  cases h

/-- The machine stands still while no operation is in progress. -/
theorem Ticked.ne_none (h : Ticked nonce s s') : s.globalOpCheckpoint ≠ .none := by
  cases h with
  | restarted hop => exact computing_ne_none hop
  | settled hop => exact computing_ne_none hop
  | _ => simp [*]

theorem Ticked.chain_eq (h : Relation.ReflTransGen (Ticked nonce) s s')
    (hop : s.globalOpCheckpoint = .none) : s' = s := by
  rcases Relation.ReflTransGen.cases_head h with heq | ⟨s₁, htick, -⟩
  · exact heq.symm
  · exact absurd hop htick.ne_none

/-- The new fee of an operation is not touched by its computation. -/
theorem newServiceFee_of_withData {op : GlobalOpCheckpoint} {data data' : ComputeAllRewardsData}
    {newServiceFee : ℕ}
    (h : op.withData data = .changeServiceFee newServiceFee data') :
    ∃ data, op = .changeServiceFee newServiceFee data := by
  cases op with
  | none => cases h
  | modifyTotalDelegationCap => cases h
  | changeServiceFee newServiceFee data =>
    cases h
    exact ⟨_, rfl⟩

/-- **Ticks keep a ledger consistent.** -/
theorem Consistent.ticked (h : s.Consistent) (ht : Ticked nonce s s') : s'.Consistent := by
  have hs' := ht.sound h.sound
  have hb := h.books
  have hpos := h.users.numUsers_pos
  have hdust : s'.DustTracked := by
    cases ht with
    | activated _ _ hsw => exact h.dust.of_evolves rfl hsw.evolves
    | unstakedDeferred _ _ hsw => exact h.dust.of_evolves rfl hsw.evolves
    | activeDeferred _ _ hsw => exact h.dust.of_evolves rfl hsw.evolves
    | _ => exact h.dust.of_evolves rfl (.refl _)
  have husers : s'.UsersKnown := by
    have hstake : ∀ u, s'.funds.stakeOf u ≤ s.funds.stakeOf u := fun u => (ht.stakeOf_eq u).le
    cases ht <;> exact h.users.of_eq rfl rfl hstake
  refine ⟨hs', hdust, husers, ?_⟩
  -- outside the computation the books stay, but for the remainder, which goes to the owner
  have hremainder : ∀ remainder u, s.numUsers < u →
      (s.withRemainder remainder).userRewUnclaimed u = 0 := fun remainder u hu => by
    have hne : u ≠ ownerUserId := by
      simp only [ownerUserId]
      omega
    simp [hne, hb.unclaimed u hu]
  have hregular : ∀ {P : Prop}, s.globalOpCheckpoint ≠ .none → s.bootstrapMode = true → P :=
    fun hne hboot => absurd (hb.bootstrap hboot).2 hne
  cases ht with
  | @restarted data hop hcp =>
    refine ⟨hb.checkpoint_le, hb.serviceFee_le, hregular (computing_ne_none hop), hb.unclaimed,
      fun fee data' hop' => ?_, fun data' hdata' => ?_⟩
    · obtain ⟨data, hop''⟩ := newServiceFee_of_withData hop'
      exact hb.newServiceFee_le _ _ hop''
    · rw [withOp_globalOpCheckpoint, GlobalOpCheckpoint.computing_withData hop,
        Option.some.injEq] at hdata'
      subst hdata'
      exact (computedTo_new s).congr le_rfl le_rfl rfl rfl
  | @settled data userData hop hcp hlt hload =>
    refine ⟨fun u => ?_, hb.serviceFee_le, hregular (computing_ne_none hop), fun u hu => ?_,
      fun fee data' hop' => ?_, fun data' hdata' => ?_⟩
    · by_cases hu : u = data.lastId + 1
      · simp [hu, loadUpdatedUserRewards_checkpoint hload]
      · simpa [hu] using hb.checkpoint_le u
    · have hne : u ≠ data.lastId + 1 := by
        simp only [withOp_numUsers, storeUserRewardData_numUsers] at hu
        omega
      simpa [hne] using hb.unclaimed u hu
    · obtain ⟨data, hop''⟩ := newServiceFee_of_withData hop'
      exact hb.newServiceFee_le _ _ hop''
    · rw [withOp_globalOpCheckpoint, GlobalOpCheckpoint.computing_withData hop,
        Option.some.injEq] at hdata'
      subst hdata'
      exact ((hb.computing data hop).next hcp hlt hload).congr le_rfl le_rfl rfl rfl
  | feeChanged hop =>
    exact ⟨hb.checkpoint_le, hb.newServiceFee_le _ _ hop,
      hregular (by simp [hop]), hremainder _, nofun, nofun⟩
  | rewardsComputed hop =>
    exact ⟨hb.checkpoint_le, hb.serviceFee_le,
      hregular (by simp [hop]), hremainder _, nofun, nofun⟩
  | capChanged hop =>
    exact ⟨hb.checkpoint_le, hb.serviceFee_le,
      hregular (by simp [hop]), hb.unclaimed, nofun, nofun⟩
  | activated hop hstep =>
    exact ⟨hb.checkpoint_le, hb.serviceFee_le,
      hregular (by simp [hop]), hb.unclaimed, nofun,
      fun data' hdata' => by simp [GlobalOpCheckpoint.computing, hstep] at hdata'⟩
  | allActivated hop =>
    exact ⟨hb.checkpoint_le, hb.serviceFee_le,
      hregular (by simp [hop]), hb.unclaimed, nofun, nofun⟩
  | unstakedDeferred hop hstep =>
    exact ⟨hb.checkpoint_le, hb.serviceFee_le,
      hregular (by simp [hop]), hb.unclaimed, nofun,
      fun data' hdata' => by simp [GlobalOpCheckpoint.computing, hstep] at hdata'⟩
  | allUnstakedDeferred hop =>
    exact ⟨hb.checkpoint_le, hb.serviceFee_le,
      hregular (by simp [hop]), hb.unclaimed, nofun, nofun⟩
  | activeDeferred hop hstep =>
    exact ⟨hb.checkpoint_le, hb.serviceFee_le,
      hregular (by simp [hop]), hb.unclaimed, nofun,
      fun data' hdata' => by simp [GlobalOpCheckpoint.computing, hstep] at hdata'⟩

/-- Ticks keep what one tick keeps. -/
theorem Consistent.ticks {J : Ledger → Prop}
    (htick : ∀ s s', s.Consistent → J s → Ticked nonce s s' → J s') (h : s.Consistent)
    (hJ : J s) (ht : Relation.ReflTransGen (Ticked nonce) s s') : s'.Consistent ∧ J s' := by
  induction ht with
  | refl => exact ⟨h, hJ⟩
  | tail _ hlast ih => exact ⟨ih.1.ticked hlast, htick _ _ ih.1 ih.2 hlast⟩

end Ledger

/-! ### Runs -/

theorem Initial.consistent {w : World} (h : Initial w) : w.contract.ledger.Consistent := by
  cases h with
  | @init env balance addr fee share nBlocks minStake cap c h =>
    obtain ⟨_, hfee, h⟩ := bind_eq_ok.mp h
    obtain ⟨_, -, h⟩ := bind_eq_ok.mp h
    cases h
    have hmono : FundStore.Sound Ledger.Relied .empty :=
      ⟨_, linked_empty.mono fun _ _ => trivial, coherent_empty⟩
    have hzero : ∀ u, FundStore.empty.stakeOf u = 0 := fun u => rfl
    refine ⟨hmono, ⟨le_rfl, fun hlive => ?_⟩, ⟨Nat.one_pos, fun a => ?_, fun a b ha hab => ?_,
      fun u _ => hzero u⟩, ⟨fun _ => le_rfl, require_eq_ok.mp hfee, fun _ => ⟨rfl, rfl⟩,
      fun _ _ => rfl, nofun, nofun⟩⟩
    · cases hlive
    · simp only [Function.update_apply]
      split_ifs
      · exact le_rfl
      · exact Nat.zero_le _
    · simp only [Function.update_apply] at ha hab
      by_cases h₁ : a = env.caller <;> by_cases h₂ : b = env.caller
      · rw [h₁, h₂]
      · exact absurd hab (by simp [h₁, h₂, ownerUserId])
      · exact absurd ha (by simp [h₁])
      · exact absurd ha (by simp [h₁])

theorem Step.consistent {w w' : World} {e : Event} (h : w.contract.ledger.Consistent)
    (hs : Step w e w') : w'.contract.ledger.Consistent := by
  obtain ⟨s₁, hact, hticks⟩ := hs.acts h.sound h.dust (h.userTotal_zero rfl)
  exact ((h.act hact).ticks (J := fun _ => True) (fun _ _ _ _ _ => trivial) trivial hticks).1

theorem Reachable.consistent {allowed : World → Event → Prop} {w : World}
    (h : Reachable allowed w) : w.contract.ledger.Consistent :=
  h.invariant (fun _ h => h.consistent) fun _ _ _ hw _ hs => hs.consistent hw

/-- **Invariant rule** for the ledger: acts and ticks keep the invariant. -/
theorem Reachable.ledger_invariant {allowed : World → Event → Prop} {J : Ledger → Prop}
    (hinit : ∀ w, Initial w → J w.contract.ledger)
    (hact : ∀ (w : World) e s', w.contract.ledger.Consistent → J w.contract.ledger → allowed w e →
      w.contract.ledger.Act e s' → J s')
    (htick : ∀ nonce s s', s.Consistent → J s → Ledger.Ticked nonce s s' → J s') {w : World}
    (h : Reachable allowed w) : w.contract.ledger.Consistent ∧ J w.contract.ledger := by
  refine h.invariant (I := fun w => w.contract.ledger.Consistent ∧ J w.contract.ledger)
    (fun w hw => ⟨hw.consistent, hinit w hw⟩) fun w e w' ⟨hc, hJ⟩ he hs => ?_
  obtain ⟨s₁, ha, hticks⟩ := hs.acts hc.sound hc.dust (hc.userTotal_zero rfl)
  exact (hc.act ha).ticks (fun s s' => htick _ s s') (hact w e s₁ hc hJ he ha) hticks

end Delegation
