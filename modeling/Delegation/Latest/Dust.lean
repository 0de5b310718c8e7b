import Delegation.Fund.Dust
import Delegation.Latest.DustCleanup
import Delegation.Latest.Rebalance

/-!
# What dust cleanup does

Both endpoints resume from one stored id. Where that id stands decides everything: at zero the list
that is to be cleaned is swept from its end; at a live item the list of that item is swept,
whichever it is; at a cleared cell nothing moves, and cleaning the waiting list forgets where the
list of `WithdrawOnly` items begins and ends.
-/

namespace Delegation

open Outcome FundStore

namespace Ledger

variable {s s' : Ledger} {env : Env} {dustLimit u : ℕ}

/-- Where the stored id stands, for a cleanup of the list `own`. -/
inductive DustAt (s : Ledger) (own : FundType) : Option FundType → Prop
  | start (h0 : s.dustCleanupCheckpoint = 0) : DustAt s own (some own)
  | item {t : FundType} (ht : t = .waiting ∨ t = .active)
      (hhas : (Source.type t).Has s.funds s.dustCleanupCheckpoint) : DustAt s own (some t)
  | cleared (h0 : s.dustCleanupCheckpoint ≠ 0)
      (hcell : s.funds.fundById s.dustCleanupCheckpoint = FundItem.default) : DustAt s own none

/-- What the stored id can be: zero, or an id given out whose item, while it lives, is in one of the
two lists that are cleaned. -/
structure DustTracked (s : Ledger) : Prop where
  le_max : s.dustCleanupCheckpoint ≤ s.funds.fundMaxId
  fundType : s.funds.Live s.dustCleanupCheckpoint →
    (s.funds.fundById s.dustCleanupCheckpoint).fundType = .waiting ∨
      (s.funds.fundById s.dustCleanupCheckpoint).fundType = .active

theorem DustTracked.dustAt (h : s.DustTracked) (hs : s.FundsSound) (own : FundType) :
    ∃ at', s.DustAt own at' := by
  obtain ⟨lay, hl, -⟩ := hs
  by_cases h0 : s.dustCleanupCheckpoint = 0
  · exact ⟨_, .start h0⟩
  · by_cases hlive : s.funds.Live s.dustCleanupCheckpoint
    · exact ⟨_, .item (h.fundType hlive) ⟨hlive, rfl, rfl⟩⟩
    · exact ⟨_, .cleared h0 (hl.cleared _ h0 hlive)⟩

/-! ### The traversal of the active list -/

/-- What the filter of `dust_cleanup_active` keeps of its ledger `c`, while the traversal has the
funds `funds`. -/
structure Sweeping (s : Ledger) (funds : FundStore) (c : Ledger) : Prop where
  frame : c = { s with
    funds := c.funds
    userRewCheckpoint := c.userRewCheckpoint
    userRewUnclaimed := c.userRewUnclaimed }
  checkpoint : ∀ u, c.userRewCheckpoint u = s.userRewCheckpoint u ∨
    c.userRewCheckpoint u = s.cumulatedRewards
  neutral : s.userRewCheckpoint ownerUserId = s.cumulatedRewards → ∀ u, u ≠ 0 →
    Neutral s { c with funds := funds } u

theorem sweeping_refl (s : Ledger) : Sweeping s s.funds s where
  frame := rfl
  checkpoint _ := .inl rfl
  neutral _ u _ := .refl s u

theorem Sweeping.owner {funds : FundStore} {c : Ledger} (h : Sweeping s funds c)
    (howner : s.userRewCheckpoint ownerUserId = s.cumulatedRewards) :
    c.userRewCheckpoint ownerUserId = c.cumulatedRewards := by
  have hcum : c.cumulatedRewards = s.cumulatedRewards := by rw [h.frame]
  rw [hcum]
  exact (h.checkpoint ownerUserId).elim (fun h => h.trans howner) id

/-- The rewards of the user are computed before the item is converted. -/
theorem Sweeping.convert {intact : FundType → Prop} {funds funds' : FundStore} {lay lay' : Layout}
    {c c' : Ledger} {id x : ℕ} {d : FundDescription} (h : Sweeping s funds c)
    (hset : Settled { c with funds := funds } c' (· = (funds.fundById id).userId))
    (hc : Converted intact funds lay id d x funds' lay') (hd : d.fundType ≠ .active) :
    Sweeping s funds' c' := by
  have hcum : c.cumulatedRewards = s.cumulatedRewards := by rw [h.frame]
  refine ⟨?_, fun v => ?_, fun howner v hv => ?_⟩
  · rw [hset.frame, h.frame]
  · rcases hset.checkpoint_cases v with heq | heq
    · exact (h.checkpoint v).imp heq.trans heq.trans
    · exact .inr (heq.trans hcum)
  · refine (h.neutral howner v hv).trans ?_
    by_cases hvowner : v = ownerUserId
    · -- the owner is up to date, so the total active stake does not matter
      refine .inr ⟨hset.cumulatedRewards, ?_⟩
      have hcp : ({ c with funds := funds } : Ledger).userRewCheckpoint v =
          ({ c with funds := funds } : Ledger).cumulatedRewards := hvowner ▸ h.owner howner
      rcases hset.kept v with hdata | hload
      · rw [loadUpdatedUserRewards_of_eq hcp]
        exact congrArg Except.ok hdata.symm
      · exact hload
    · refine hset.neutral_of_funds funds' fun hne => ?_
      refine hset.rewardTerms_of_funds hv hvowner ?_
      have htotal := hc.userTotal v .active
      have hkey : (v, FundType.active) ≠ (funds.fundById id).userKey := fun hkey =>
        hne (congrArg Prod.fst hkey)
      rw [if_neg hkey, if_neg fun hkey => hd (congrArg Prod.snd hkey).symm] at htotal
      exact htotal

theorem dustFilterSpec_active {intact : FundType → Prop} (s : Ledger) (t : FundType) :
    DustFilterSpec intact t (.unStaked 0) dustCleanupActiveFilter (Sweeping s) := by
  intro funds lay c id r hl hco hhas hK hr
  simp only [dustCleanupActiveFilter] at hr
  split_ifs at hr with hzero
  · cases hr
    exact hK
  · obtain ⟨c', hc', hr⟩ := bind_eq_ok.mp hr
    cases hr
    have hset := (computeOneUserReward_spec { c with funds := funds } _).of_ok hc'
    exact ⟨rfl, fun funds' lay' hc => hK.convert hset hc (by decide)⟩

/-- The traversal phase of `dustCleanupActive` from `s`. -/
structure ActiveSwept (s : Ledger) (dustLimit : ℕ) (s' : Ledger) : Prop where
  frame : s' = { s with
    funds := s'.funds
    userRewCheckpoint := s'.userRewCheckpoint
    userRewUnclaimed := s'.userRewUnclaimed
    dustCleanupCheckpoint := s'.dustCleanupCheckpoint }
  sound : s'.FundsSound
  swept : (∃ t, s.DustAt .active (some t) ∧ Swept t dustLimit (.unStaked 0) s.funds s'.funds ∧
      (s'.dustCleanupCheckpoint = 0 ∨ (Source.type t).Has s'.funds s'.dustCleanupCheckpoint)) ∨
    s.DustAt .active none ∧ s'.funds = s.funds ∧
      (s'.dustCleanupCheckpoint = 0 ∨ s'.dustCleanupCheckpoint = s.dustCleanupCheckpoint)
  checkpoint : ∀ u, s'.userRewCheckpoint u = s.userRewCheckpoint u ∨
    s'.userRewCheckpoint u = s.cumulatedRewards
  neutral : s.userRewCheckpoint ownerUserId = s.cumulatedRewards → ∀ u, u ≠ 0 → Neutral s s' u

theorem dustAt_relied {own t : FundType} (hown : own = .waiting ∨ own = .active)
    (h : s.DustAt own (some t)) : (t = .waiting ∨ t = .active) ∧
      (s.dustCleanupCheckpoint = 0 ∧ own = t ∨
        (Source.type t).Has s.funds s.dustCleanupCheckpoint) := by
  cases h with
  | start h0 => exact ⟨hown, .inl ⟨h0, rfl⟩⟩
  | item ht hhas => exact ⟨ht, .inr hhas⟩

theorem dustCleanupActiveTraversal_spec (hs : s.FundsSound) {at' : Option FundType}
    (hat : s.DustAt .active at') (env : Env) (dustLimit : ℕ) :
    Spec (s.dustCleanupActiveTraversal env dustLimit) (s.ActiveSwept dustLimit)
      (fun _ => True) := by
  cases at' with
  | some t =>
    obtain ⟨ht, hid⟩ := dustAt_relied (.inr rfl) hat
    refine Spec.bind (FundStore.Sound.swapDust hs (t := t) (d := .unStaked 0) ?_ ?_
      (hid.imp_left fun h => ⟨h.1, h.2⟩) (dustFilterSpec_active s t) (sweeping_refl s) dustLimit
      (env.gasLow 0) env.fuel) fun r ⟨hsound, hcp, hswept, hsweep⟩ => ?_
    · rcases ht with rfl | rfl <;> decide
    · rcases ht with rfl | rfl <;> decide
    · obtain ⟨funds, c, cp⟩ := r
      have hframe := hsweep.frame
      simp only at hframe
      exact {
        frame := by rw [hframe]
        sound := hsound
        swept := .inl ⟨t, hat, hswept, hcp⟩
        checkpoint := hsweep.checkpoint
        neutral := hsweep.neutral }
  | none =>
    cases hat with
    | cleared h0 hcell =>
      have hreject : dustFilter dustLimit dustCleanupActiveFilter s.funds s FundItem.default =
          .ok (none, s) := by
        simp [dustFilter, dustCleanupActiveFilter, FundItem.default]
      have hkept : ∀ cp, cp = 0 ∨ cp = s.dustCleanupCheckpoint →
          s.ActiveSwept dustLimit { s with dustCleanupCheckpoint := cp } := fun cp hcp => {
        frame := rfl
        sound := hs
        swept := .inr ⟨.cleared h0 hcell, rfl, hcp⟩
        checkpoint := fun _ => .inl rfl
        neutral := fun _ u _ => .refl s u }
      simp only [dustCleanupActiveTraversal, swapDust_of_reject h0 hcell hreject]
      split_ifs
      · exact hkept _ (.inr rfl)
      · trivial
      · exact hkept _ (.inl rfl)

/-! ### The endpoints -/

/-- What `dustCleanupWaitingList` does. -/
inductive WaitingCleaned (s : Ledger) (env : Env) (dustLimit : ℕ) : Ledger → Prop
  | swept {t : FundType} {funds : FundStore} {checkpoint : ℕ} (howner : env.caller = s.owner)
      (hop : s.globalOpCheckpoint = .none) (hat : s.DustAt .waiting (some t))
      (hsound : FundStore.Sound Relied funds)
      (hsw : Swept t dustLimit .withdrawOnly s.funds funds)
      (hcp : checkpoint = 0 ∨ (Source.type t).Has funds checkpoint) :
      WaitingCleaned s env dustLimit
        { s with funds := funds, dustCleanupCheckpoint := checkpoint }
  | cleared {funds : FundStore} {checkpoint : ℕ} (howner : env.caller = s.owner)
      (hop : s.globalOpCheckpoint = .none) (hat : s.DustAt .waiting none)
      (hfunds : funds = s.funds ∨ funds = s.funds.clearWithdrawOnlyEnds)
      (hcp : checkpoint = 0 ∨ checkpoint = s.dustCleanupCheckpoint) :
      WaitingCleaned s env dustLimit
        { s with funds := funds, dustCleanupCheckpoint := checkpoint }

/-- What `dustCleanupActive` does: the rewards of the owner are computed, the list is swept, and
waiting funds replace unstaked ones. -/
inductive ActiveCleaned (s : Ledger) (env : Env) (dustLimit : ℕ) : Ledger → Prop
  | intro {mid swept s' : Ledger} {deferred activated : ℕ → ℕ} {toDeferred toActive : ℕ}
      (howner : env.caller = s.owner) (hop : s.globalOpCheckpoint = .none)
      (hset : Settled s mid (· = ownerUserId)) (hsw : mid.ActiveSwept dustLimit swept)
      (hre : Rebalanced swept s' deferred activated toDeferred toActive) :
      ActiveCleaned s env dustLimit s'

theorem dustCleanupWaitingList_spec (hs : s.FundsSound) {at' : Option FundType}
    (hat : s.DustAt .waiting at') (hzero : s.funds.userTotal 0 .withdrawOnly = 0) (env : Env)
    (dustLimit : ℕ) :
    Spec (s.dustCleanupWaitingList env dustLimit) (s.WaitingCleaned env dustLimit)
      (fun _ => True) := by
  refine Spec.bind (spec_require fun _ => trivial) fun _ howner => ?_
  refine Spec.bind (spec_require fun _ => trivial) fun _ hbusy => ?_
  have hop : s.globalOpCheckpoint = .none := by simpa [isGlobalOpInProgress] using hbusy
  cases at' with
  | some t =>
    obtain ⟨ht, hid⟩ := dustAt_relied (.inl rfl) hat
    refine Spec.bind (FundStore.Sound.swapDust hs (t := t) (d := .withdrawOnly) ?_ ?_
      (hid.imp_left fun h => ⟨h.1, h.2⟩) (dustFilterSpec_some Relied t .withdrawOnly) trivial
      dustLimit (env.gasLow 0) env.fuel) fun r ⟨hsound, hcp, hswept, _⟩ =>
        .swept howner hop hat hsound hswept hcp
    · rcases ht with rfl | rfl <;> decide
    · rcases ht with rfl | rfl <;> decide
  | none =>
    cases hat with
    | cleared h0 hcell =>
      have hat : s.DustAt .waiting none := .cleared h0 hcell
      have hdefault : s.funds.fundListByUser (0, .withdrawOnly) = FundsListInfo.default := by
        obtain ⟨lay, hl, -⟩ := hs
        have hnil := hl.byUser_eq_nil_iff.mpr hzero
        exact FundsListInfo.eq_default_of_isDefault (hl.userList_isDefault_iff.mpr hnil)
      rcases Nat.eq_zero_or_pos dustLimit with rfl | hpos
      · have hreject : dustFilter 0 (pureFilter fun _ => some .withdrawOnly) s.funds ()
            FundItem.default = .ok (none, ()) := by
          simp [dustFilter]
        rw [swapDust_of_reject h0 hcell hreject]
        split_ifs
        · exact .cleared howner hop hat (.inl rfl) (.inr rfl)
        · trivial
        · exact .cleared howner hop hat (.inl rfl) (.inl rfl)
      · rw [swapDust_of_cleared h0 hcell hpos, deleteDefault_eq hdefault]
        split_ifs
        · exact .cleared howner hop hat (.inl rfl) (.inr rfl)
        · trivial
        · exact .cleared howner hop hat (.inr rfl) (.inl rfl)

theorem dustCleanupActive_spec (hs : s.FundsSound) {at' : Option FundType}
    (hat : s.DustAt .active at') (env : Env) (dustLimit : ℕ) :
    Spec (s.dustCleanupActive env dustLimit) (s.ActiveCleaned env dustLimit)
      (fun _ => True) := by
  refine Spec.bind (spec_require fun _ => trivial) fun _ howner => ?_
  refine Spec.bind (spec_require fun _ => trivial) fun _ hbusy => ?_
  have hop : s.globalOpCheckpoint = .none := by simpa [isGlobalOpInProgress] using hbusy
  refine Spec.bind ((s.computeOneUserReward_spec ownerUserId).mono (fun _ h => h)
    fun _ _ => trivial) fun mid hset => ?_
  have hmid : mid.FundsSound := by
    unfold FundsSound
    rw [hset.funds]
    exact hs
  have hat' : mid.DustAt .active at' := by
    have hcp : mid.dustCleanupCheckpoint = s.dustCleanupCheckpoint := by rw [hset.frame]
    cases hat with
    | start h0 => exact .start (hcp.trans h0)
    | item ht hhas => exact .item ht (by rw [hset.funds, hcp]; exact hhas)
    | cleared h0 hcell => exact .cleared (hcp ▸ h0) (by rw [hset.funds, hcp]; exact hcell)
  refine Spec.bind (dustCleanupActiveTraversal_spec hmid hat' env dustLimit) fun swept hsw => ?_
  refine (useWaitingToReplaceUnstaked_spec hsw.sound).mono (fun s' hre => ?_) fun _ _ => trivial
  obtain ⟨deferred, activated, toDeferred, toActive, hre⟩ := hre
  exact .intro howner hop hset hsw hre

end Ledger

end Delegation
