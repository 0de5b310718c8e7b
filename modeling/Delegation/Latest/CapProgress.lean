import Delegation.Latest.Accounted

/-!
# Operations that get to their end

A change of the cap is planned so that the lists hold what is to be moved out of them, and only the
operation itself moves it (`Feasible`). So no swap ever finds its list exhausted, and as the rewards
can be computed too, an operation on track is never stuck. Every tick is progress: `work` bounds the
ticks that are left, as long as no more rewards arrive.

The plan relies on the cap being filled without a gap, which is the case unless a call has dropped
the new cap (`DropsNewCap`).
-/

namespace Delegation

open Outcome FundStore StateTransition Relation

namespace Ledger

variable {s s' : Ledger} {env : Env} {e : Event} {nonce : UInt64}
  {mdcapData : ModifyTotalDelegationCapData}

/-! ### What a change of the cap plans to move is there -/

/-- The lists hold what the operation has still to move out of them. -/
structure Feasible (s : Ledger) (mdcapData : ModifyTotalDelegationCapData) : Prop where
  waiting : mdcapData.remainingSwapWaitingToActive ≤ s.funds.typeTotal .waiting
  unStaked : mdcapData.remainingSwapUnstakedToDefP ≤ s.funds.typeTotal .unStaked
  active : mdcapData.remainingSwapActiveToDefP ≤ s.funds.typeTotal .active

/-- Nobody has dropped a new cap: outside bootstrap mode the cap is filled without a gap, and what
is planned can be carried out. -/
structure OnTrack (s : Ledger) : Prop where
  cap : s.bootstrapMode = true ∧
      s.funds.typeTotal .active + s.funds.typeTotal .unStaked ≤ s.totalDelegationCap ∨
    s.CapFilled 0
  feasible : ∀ mdcapData, s.globalOpCheckpoint = .modifyTotalDelegationCap mdcapData →
    s.Feasible mdcapData

/-- **A plan is feasible.** -/
theorem Planned.feasible {newTotalCap previousTotalCap : ℕ}
    (h : s.Planned newTotalCap previousTotalCap mdcapData)
    (hle : newTotalCap ≤ s.maxAvailable)
    (hprevious : newTotalCap < previousTotalCap → s.funds.typeTotal .waiting = 0 ∧
        previousTotalCap = s.maxAvailable ∨
      previousTotalCap = s.funds.typeTotal .active + s.funds.typeTotal .unStaked)
    (hmore : previousTotalCap < newTotalCap →
      previousTotalCap = s.funds.typeTotal .active + s.funds.typeTotal .unStaked) :
    s.Feasible mdcapData := by
  simp only [maxAvailable, userStakeOfType_zero] at hle hprevious
  cases h with
  | increase hlt hunstaked =>
    have := hmore hlt
    exact ⟨by simp only; omega, Nat.zero_le _, Nat.zero_le _⟩
  | decrease hlt _ _ hunstaked hadd =>
    have := hprevious hlt
    exact ⟨Nat.zero_le _, by simp only; omega, by simp only; omega⟩

theorem Feasible.of_eq (h : s.Feasible mdcapData)
    (hwaiting : s'.funds.typeTotal .waiting = s.funds.typeTotal .waiting)
    (hunstaked : s'.funds.typeTotal .unStaked = s.funds.typeTotal .unStaked)
    (hactive : s'.funds.typeTotal .active = s.funds.typeTotal .active) : s'.Feasible mdcapData :=
  ⟨by rw [hwaiting]; exact h.waiting, by rw [hunstaked]; exact h.unStaked,
    by rw [hactive]; exact h.active⟩

/-- While an operation is in progress, an act leaves it alone, and only deferred and withdrawable
funds move. -/
theorem Act.of_busy (ha : s.Act e s') (he : e.cleansDust = false)
    (hop : s.globalOpCheckpoint ≠ .none) :
    s'.globalOpCheckpoint = s.globalOpCheckpoint ∧
      ∀ t, t ≠ .deferredPayment → t ≠ .withdrawOnly →
        s'.funds.typeTotal t = s.funds.typeTotal t := by
  cases ha with
  | answered | received | rewarded | continued => exact ⟨rfl, fun _ _ _ => rfl⟩
  | kept _ hk =>
    rw [hk.frame]
    exact ⟨rfl, fun _ _ _ => rfl⟩
  | unBonded _ hun => exact ⟨hun.ordinary.globalOpCheckpoint, fun t => hun.typeTotal_eq⟩
  | staked hst =>
    obtain ⟨hidle, -⟩ := hst
    exact absurd hidle hop
  | unStaked _ hun => exact absurd hun.books.1 hop
  | claimed _ hcl =>
    obtain ⟨hidle, -⟩ := hcl
    exact absurd hidle hop
  | operated _ hidle => exact absurd hidle hop
  | waitingCleaned | activeCleaned => cases he

/-- An act that finds no operation in progress leaves none, unless it opens one. -/
theorem Act.of_idle (ha : s.Act e s') (hop : s.globalOpCheckpoint = .none) :
    s'.globalOpCheckpoint = .none ∨
      ∃ op s₀ orc, s.Opened op s₀ orc ∧ s' = s₀.withOp orc := by
  cases ha with
  | answered | received | rewarded | continued => exact .inl hop
  | kept _ hk =>
    rw [hk.frame]
    exact .inl hop
  | staked hst => exact .inl (hst.ordinary.globalOpCheckpoint.trans hop)
  | unStaked _ hun => exact .inl (hun.ordinary.globalOpCheckpoint.trans hop)
  | unBonded _ hun => exact .inl (hun.ordinary.globalOpCheckpoint.trans hop)
  | claimed _ hcl => exact .inl (hcl.ordinary.globalOpCheckpoint.trans hop)
  | operated _ _ _ hopened => exact .inr ⟨_, _, _, hopened, rfl⟩
  | waitingCleaned _ hw => exact .inl (hw.ordinary.globalOpCheckpoint.trans hop)
  | activeCleaned _ hw => exact .inl (hw.ordinary.globalOpCheckpoint.trans hop)

/-- What is opened is feasible. -/
theorem OnTrack.opened {op : Operation} {s₀ : Ledger} {orc : GlobalOpCheckpoint} (h : s.OnTrack)
    (hone : s.OneSided) (hop : s.globalOpCheckpoint = .none) (ho : s.Opened op s₀ orc)
    (horc : orc = .modifyTotalDelegationCap mdcapData) : (s₀.withOp orc).Feasible mdcapData := by
  cases ho with
  | capChange hprevious hle hplan =>
    cases horc
    have hfeasible : s.Feasible mdcapData := by
      refine hplan.feasible hle (fun _ => ?_) fun hlt => ?_ <;> rcases h.cap with ⟨hb, -⟩ | hfilled
      · rw [if_pos hb] at hprevious
        exact .inl ⟨(hone.bootstrap hb).1, hprevious⟩
      · rw [if_neg (by simp [hfilled.bootstrapMode])] at hprevious
        have := hfilled.filled (by rw [hop]; rfl)
        exact .inr (by omega)
      · rw [if_pos hb] at hprevious
        omega
      · rw [if_neg (by simp [hfilled.bootstrapMode])] at hprevious
        have := hfilled.filled (by rw [hop]; rfl)
        omega
    exact hfeasible.of_eq rfl rfl rfl
  | _ => cases horc

/-- **Acts that drop no new cap stay on track.** -/
theorem OnTrack.act (h : s.OnTrack) (hc : s.Consistent) (hone : s.OneSided) (ha : s.Act e s')
    (he : e.cleansDust = false) (hkeeps : ¬ s.DropsNewCap e) : s'.OnTrack where
  cap := by
    rcases h.cap with ⟨hb, hle⟩ | hfilled
    · refine (ha.capTracked hc hone hb hle he).imp_right fun ⟨gap, hfilled, hgap⟩ => ?_
      rwa [hgap.resolve_right hkeeps] at hfilled
    · exact .inr (hfilled.act hc.sound ha he)
  feasible mdcapData hop' := by
    by_cases hop : s.globalOpCheckpoint = .none
    · rcases ha.of_idle hop with hidle | ⟨op, s₀, orc, hopened, rfl⟩
      · rw [hidle] at hop'
        cases hop'
      · exact h.opened hone hop hopened hop'
    · obtain ⟨hkept, htotal⟩ := ha.of_busy he hop
      exact (h.feasible mdcapData (hkept ▸ hop')).of_eq (htotal _ (by decide) (by decide))
        (htotal _ (by decide) (by decide)) (htotal _ (by decide) (by decide))

/-- What a swap takes out of a list is no longer to be moved out of it. -/
theorem Feasible.swapped {funds : FundStore} {src dst : FundType} {moved : ℕ → ℕ} {amount : ℕ}
    {rest : ModifyTotalDelegationCapData} {orc : GlobalOpCheckpoint} (h : s.Feasible mdcapData)
    (hshift : Shift s.funds funds src dst moved amount)
    (hwaiting : rest.remainingSwapWaitingToActive + (if .waiting = src then amount else 0) =
      mdcapData.remainingSwapWaitingToActive)
    (hunstaked : rest.remainingSwapUnstakedToDefP + (if .unStaked = src then amount else 0) =
      mdcapData.remainingSwapUnstakedToDefP)
    (hactive : rest.remainingSwapActiveToDefP + (if .active = src then amount else 0) =
      mdcapData.remainingSwapActiveToDefP) :
    ({ s with funds := funds }.withOp orc).Feasible rest := by
  have hleft : ∀ {t remaining planned}, planned ≤ s.funds.typeTotal t →
      remaining + (if t = src then amount else 0) = planned →
      remaining ≤ funds.typeTotal t := fun {t _ _} hle hrest => by
    have htotal := hshift.typeTotal t
    omega
  exact ⟨hleft h.waiting hwaiting, hleft h.unStaked hunstaked, hleft h.active hactive⟩

theorem Feasible.with_step (h : s.Feasible mdcapData) (step : ModifyDelegationCapStep) :
    s.Feasible { mdcapData with step := step } :=
  ⟨h.waiting, h.unStaked, h.active⟩

/-- A tick that computes rewards. -/
theorem OnTrack.computing (h : s.OnTrack) {data : ComputeAllRewardsData}
    (hop' : s.globalOpCheckpoint.withData data = .modifyTotalDelegationCap mdcapData) :
    s.Feasible mdcapData := by
  cases hop : s.globalOpCheckpoint with
  | none | changeServiceFee =>
    rw [hop] at hop'
    cases hop'
  | modifyTotalDelegationCap =>
    rw [hop] at hop'
    cases hop'
    exact (h.feasible _ hop).with_step _

/-- **Ticks stay on track.** -/
theorem OnTrack.ticked (h : s.OnTrack) (hb : s.BooksKept) (ht : Ticked nonce s s') :
    s'.OnTrack where
  cap := by
    rcases h.cap with ⟨hboot, -⟩ | hfilled
    · exact absurd (hb.bootstrap hboot).2 ht.ne_none
    · exact .inr (hfilled.ticked ht)
  feasible d hd := by
    cases ht with
    | restarted => exact (h.computing hd).of_eq rfl rfl rfl
    | settled => exact (h.computing hd).of_eq rfl rfl rfl
    | feeChanged | capChanged => cases hd
    | rewardsComputed hop =>
      cases hd
      exact ((h.feasible _ hop).with_step _).of_eq rfl rfl rfl
    | allActivated hop | allUnstakedDeferred hop =>
      cases hd
      exact ((h.feasible _ hop).with_step _).of_eq rfl rfl rfl
    | activated hop _ hsw hadd =>
      cases hd
      exact (h.feasible _ hop).swapped hsw.shift hadd rfl rfl
    | unstakedDeferred hop _ hsw hadd =>
      cases hd
      exact (h.feasible _ hop).swapped hsw.shift rfl hadd rfl
    | activeDeferred hop _ hsw hadd =>
      cases hd
      exact (h.feasible _ hop).swapped hsw.shift rfl rfl hadd

/-- **An operation on track is never stuck**: no list is exhausted while something is left to move,
and the rewards can be computed. -/
theorem OnTrack.not_stuck (h : s.OnTrack) (hacc : s.Accounted) : ¬ s.Stuck := fun hstuck => by
  have hnone := hacc.computing_eq_none hstuck
  cases hstuck with
  | rewards hop | remainder hop =>
    rw [hop] at hnone
    cases hnone
  | waiting hop _ hrem htotal =>
    have := (h.feasible _ hop).waiting
    omega
  | unStaked hop _ hrem htotal =>
    have := (h.feasible _ hop).unStaked
    omega
  | active hop _ hrem htotal =>
    have := (h.feasible _ hop).active
    omega

/-- So it goes on until it is over. -/
theorem OnTrack.tick_ne_none (h : s.OnTrack) (hacc : s.Accounted)
    (hop : s.globalOpCheckpoint ≠ .none) : tick nonce s ≠ none := fun hnone =>
  (tick_eq_none hacc.consistent.sound hnone).elim hop (h.not_stuck hacc)

end Ledger

/-! ### What is left to do -/

/-- The ticks that a computation of all rewards has left, unless more rewards arrive. -/
def ComputeAllRewardsData.left (data : ComputeAllRewardsData) (numUsers cumulatedRewards : ℕ) : ℕ :=
  if data.rewardsCheckpoint = cumulatedRewards then numUsers - data.lastId else numUsers + 1

/-- A bound on the ticks that an operation has left, unless more rewards arrive. -/
def GlobalOpCheckpoint.work (numUsers cumulatedRewards : ℕ) : GlobalOpCheckpoint → ℕ
  | .none => 0
  | .changeServiceFee _ data => data.left numUsers cumulatedRewards + 1
  | .modifyTotalDelegationCap mdcapData =>
      mdcapData.remainingSwapWaitingToActive + mdcapData.remainingSwapUnstakedToDefP +
        mdcapData.remainingSwapActiveToDefP +
      match mdcapData.step with
      | .computeAllRewards data => data.left numUsers cumulatedRewards + 4
      | .swapWaitingToActive => 3
      | .swapUnstakedToDeferredPayment => 2
      | .swapActiveToDeferredPayment => 1

theorem GlobalOpCheckpoint.work_pos {op : GlobalOpCheckpoint} (h : op ≠ .none) (n c : ℕ) :
    0 < op.work n c := by
  cases op with
  | none => exact absurd rfl h
  | changeServiceFee => exact Nat.succ_pos _
  | modifyTotalDelegationCap mdcapData =>
    refine Nat.lt_add_left _ ?_
    cases mdcapData.step <;> simp

theorem GlobalOpCheckpoint.work_withData {op : GlobalOpCheckpoint}
    {data data' : ComputeAllRewardsData} (h : op.computing = some data) (n c : ℕ)
    (hlt : data'.left n c < data.left n c) : (op.withData data').work n c < op.work n c := by
  cases op with
  | none => cases h
  | changeServiceFee =>
    cases h
    exact Nat.succ_lt_succ hlt
  | modifyTotalDelegationCap mdcapData =>
    obtain ⟨newCap, remW, remA, remU, step⟩ := mdcapData
    cases step with
    | computeAllRewards =>
      cases h
      simp only [withData, work]
      omega
    | _ => cases h

namespace Ledger

variable {s s' : Ledger} {nonce : UInt64}

/-- The work that is left. -/
def work (s : Ledger) : ℕ := s.globalOpCheckpoint.work s.numUsers s.cumulatedRewards

/-- **Every tick is progress.** -/
theorem Ticked.work_lt (h : Ticked nonce s s') : s'.work < s.work := by
  unfold work
  cases h with
  | restarted hop hcp =>
    refine GlobalOpCheckpoint.work_withData hop _ _ ?_
    simp [ComputeAllRewardsData.left, ComputeAllRewardsData.new, hcp]
  | settled hop hcp hlt =>
    refine GlobalOpCheckpoint.work_withData hop _ _ ?_
    simp only [ComputeAllRewardsData.left, hcp, if_true, withOp_cumulatedRewards,
      storeUserRewardData_cumulatedRewards, withOp_numUsers, storeUserRewardData_numUsers]
    omega
  | feeChanged hop | capChanged hop =>
    exact GlobalOpCheckpoint.work_pos (by simp [hop]) _ _
  | rewardsComputed hop hstep =>
    simp only [hop, withOp_globalOpCheckpoint, GlobalOpCheckpoint.work, hstep]
    omega
  | activated hop hstep _ hadd hpos | unstakedDeferred hop hstep _ hadd hpos
  | activeDeferred hop hstep _ hadd hpos =>
    simp only [hop, withOp_globalOpCheckpoint, GlobalOpCheckpoint.work, hstep]
    omega
  | allActivated hop hstep | allUnstakedDeferred hop hstep =>
    simp only [hop, withOp_globalOpCheckpoint, GlobalOpCheckpoint.work, hstep]
    omega

theorem work_lt_of_reaches (hs : s.FundsSound) (h : Reaches₁ (tick nonce) s s') :
    s'.work < s.work := by
  obtain ⟨mid, htick, hreach⟩ := TransGen.head'_iff.mp h
  have hticked := ticked_of_tick hs htick
  obtain ⟨-, hticks⟩ := ticks_of_reaches (hticked.sound hs) hreach
  refine lt_of_le_of_lt ?_ hticked.work_lt
  clear hticked htick hreach h
  induction hticks with
  | refl => exact le_rfl
  | tail _ hlast ih => exact hlast.work_lt.le.trans ih

end Ledger

end Delegation
