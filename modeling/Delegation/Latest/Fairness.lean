import Delegation.Latest.CapProgress
import Delegation.Latest.Neutrality

/-!
# Operations are fair, if nothing arrives at the wrong time

An operation computes the rewards of everybody before it moves any stake or stores another cap or
fee. The computation is restarted when more rewards arrive before it is finished, so at its end
nothing is due to anybody, and then it does not matter which stakes, cap and fee are in force
(`UpToDate.fair`).

There is no such restart once the funds are being swapped. Rewards that arrive between two
transactions of that phase are accounted under stakes that change in the next one, and under the new
cap. In runs in which that does not happen, every transaction of an operation is fair
(`operation_fair_of_quietSwaps`).
-/

namespace Delegation

open Outcome FundStore Relation

namespace Ledger

variable {s s' s'' : Ledger} {env : Env} {e : Event} {nonce : UInt64} {u : ℕ}

/-- The rewards of a user can be computed before and after; they have not changed, but those of the
owner may have grown. -/
def Fair (s s' : Ledger) (u : ℕ) : Prop :=
  ∃ before after, s.accrued u = .ok before ∧ s'.accrued u = .ok after ∧ before ≤ after ∧
    (u ≠ ownerUserId → after = before)

theorem Fair.trans (h : Fair s s' u) (h' : Fair s' s'' u) : Fair s s'' u := by
  obtain ⟨before, mid, hbefore, hmid, hle, heq⟩ := h
  obtain ⟨mid', after, hmid', hafter, hle', heq'⟩ := h'
  obtain rfl : mid = mid' := Except.ok.inj (hmid.symm.trans hmid')
  exact ⟨before, after, hbefore, hafter, hle.trans hle', fun hu => (heq' hu).trans (heq hu)⟩

/-- What is neutral is fair. -/
theorem Neutral.fair (h : Neutral s s' u) (hc : s.Computable u) : Fair s s' u := by
  have hbefore : s.accrued u = .ok (s.updatedUnclaimed u) := by
    rw [accrued, hc.loadUpdatedUserRewards_eq]
    rfl
  exact ⟨_, _, hbefore, h.updated_eq.trans hbefore, le_rfl, fun _ => rfl⟩

theorem Neutral.withOp (h : Neutral s s' u) (op : GlobalOpCheckpoint) :
    Neutral s (s'.withOp op) u := h.trans (.inl ⟨rfl, rfl⟩)

/-- Nothing is due to anybody. -/
def UpToDate (s : Ledger) : Prop :=
  ∀ u ∈ Finset.Icc 1 s.numUsers, s.userRewCheckpoint u = s.cumulatedRewards

/-- Then it does not matter which stakes, cap and fee are in force. -/
theorem UpToDate.fair (h : s.UpToDate) (hu : u ∈ Finset.Icc 1 s.numUsers)
    (hcp : s'.userRewCheckpoint = s.userRewCheckpoint)
    (hcum : s'.cumulatedRewards = s.cumulatedRewards)
    (hle : s.userRewUnclaimed u ≤ s'.userRewUnclaimed u)
    (heq : u ≠ ownerUserId → s'.userRewUnclaimed u = s.userRewUnclaimed u) : Fair s s' u := by
  have hdate : s'.userRewCheckpoint u = s'.cumulatedRewards := by
    rw [hcp, hcum]
    exact h u hu
  refine ⟨s.userRewUnclaimed u, s'.userRewUnclaimed u, ?_, ?_, hle, heq⟩
  · rw [accrued, loadUpdatedUserRewards_of_eq (h u hu)]
    rfl
  · rw [accrued, loadUpdatedUserRewards_of_eq hdate]
    rfl

theorem UpToDate.of_eq (h : s.UpToDate) (hnum : s'.numUsers = s.numUsers)
    (hcp : s'.userRewCheckpoint = s.userRewCheckpoint)
    (hcum : s'.cumulatedRewards = s.cumulatedRewards) : s'.UpToDate := by
  unfold UpToDate
  rw [hnum, hcp, hcum]
  exact h

/-- Nothing has arrived since the rewards were computed before the swaps. -/
def SettledSwaps (s : Ledger) : Prop := s.globalOpCheckpoint.swapping = true → s.UpToDate

theorem settledSwaps_of_not_swapping (hno : s.globalOpCheckpoint.swapping = false) :
    s.SettledSwaps := fun hsw => by
  rw [hno] at hsw
  cases hsw

/-! ### Ticks -/

/-- The remainder is for the owner. -/
theorem UpToDate.fair_withRemainder (h : s.UpToDate) (hu : u ∈ Finset.Icc 1 s.numUsers)
    {remainder : ℕ} (hcp : s'.userRewCheckpoint = s.userRewCheckpoint)
    (hcum : s'.cumulatedRewards = s.cumulatedRewards)
    (hunc : s'.userRewUnclaimed = (s.withRemainder remainder).userRewUnclaimed) :
    Fair s s' u := by
  refine h.fair hu hcp hcum ?_ fun howner => ?_
  · rw [hunc, withRemainder_userRewUnclaimed]
    by_cases howner : u = ownerUserId
    · simp [howner]
    · rw [Function.update_of_ne howner]
  · rw [hunc, withRemainder_userRewUnclaimed, Function.update_of_ne howner]

theorem ComputedTo.upToDate {data : ComputeAllRewardsData} (h : s.ComputedTo data)
    (hcp : data.rewardsCheckpoint = s.cumulatedRewards) (hle : s.numUsers ≤ data.lastId) :
    s.UpToDate := fun u hu => by
  rw [Finset.mem_Icc] at hu
  exact (h.checkpoint u (Finset.mem_Icc.mpr ⟨hu.1, hu.2.trans hle⟩)).trans hcp

/-- **A tick is fair**, if nothing has arrived since the rewards were computed. -/
theorem Ticked.fair (hacc : s.Accounted) (hsettled : s.SettledSwaps) (ht : Ticked nonce s s')
    (hu : u ∈ Finset.Icc 1 s.numUsers) : Fair s s' u := by
  have hcomputable : ∀ {data}, s.globalOpCheckpoint.computing = some data → s.Computable u :=
    fun hop => (hacc.steady (GlobalOpCheckpoint.swapping_of_computing hop)).computable u
  cases ht with
  | restarted hop => exact ((Neutral.refl s u).withOp _).fair (hcomputable hop)
  | settled hop _ _ hload =>
    exact (((settled_storeUserRewardData hload).neutral u).withOp _).fair (hcomputable hop)
  | feeChanged hop hcp hle =>
    exact ((hacc.consistent.books.computing _ (by rw [hop]; rfl)).upToDate hcp
      hle).fair_withRemainder hu rfl rfl rfl
  | rewardsComputed hop hstep hcp hle =>
    exact ((hacc.consistent.books.computing _ (by
      rw [hop]; exact GlobalOpCheckpoint.computing_of_step hstep)).upToDate hcp
        hle).fair_withRemainder hu rfl rfl rfl
  | activated hop hstep | allActivated hop hstep | unstakedDeferred hop hstep
  | allUnstakedDeferred hop hstep | activeDeferred hop hstep | capChanged hop hstep =>
    exact (hsettled (by simp [hop, GlobalOpCheckpoint.swapping, hstep])).fair hu rfl rfl le_rfl
      fun _ => rfl

theorem SettledSwaps.ticked (h : s.SettledSwaps) (hb : s.BooksKept) (ht : Ticked nonce s s') :
    s'.SettledSwaps := by
  cases ht with
  | restarted hop =>
    exact settledSwaps_of_not_swapping (GlobalOpCheckpoint.swapping_of_computing
      (GlobalOpCheckpoint.computing_withData hop _))
  | settled hop =>
    exact settledSwaps_of_not_swapping (GlobalOpCheckpoint.swapping_of_computing
      (GlobalOpCheckpoint.computing_withData hop _))
  | feeChanged | capChanged => exact settledSwaps_of_not_swapping rfl
  | rewardsComputed hop hstep hcp hle =>
    have hdate := (hb.computing _ (by
      rw [hop]; exact GlobalOpCheckpoint.computing_of_step hstep)).upToDate hcp hle
    exact fun _ => hdate.of_eq rfl rfl rfl
  | activated hop hstep | allActivated hop hstep | unstakedDeferred hop hstep
  | allUnstakedDeferred hop hstep | activeDeferred hop hstep =>
    have hdate := h (by simp [hop, GlobalOpCheckpoint.swapping, hstep])
    exact fun _ => hdate.of_eq rfl rfl rfl

theorem Ticked.frame_eq (ht : Ticked nonce s s') :
    s'.numUsers = s.numUsers ∧ s'.cumulatedRewards = s.cumulatedRewards := by
  cases ht <;> exact ⟨rfl, rfl⟩

/-- To do nothing is fair. -/
theorem Accounted.fair_refl (hacc : s.Accounted) (hsettled : s.SettledSwaps)
    (hu : u ∈ Finset.Icc 1 s.numUsers) : Fair s s u := by
  cases hsw : s.globalOpCheckpoint.swapping with
  | false => exact (Neutral.refl s u).fair ((hacc.steady hsw).computable u)
  | true => exact (hsettled hsw).fair hu rfl rfl le_rfl fun _ => rfl

/-- What is fair to every user, at the same cumulated rewards. -/
structure FairToAll (s s' : Ledger) : Prop where
  numUsers : s'.numUsers = s.numUsers
  cumulatedRewards : s'.cumulatedRewards = s.cumulatedRewards
  fair : ∀ u ∈ Finset.Icc 1 s.numUsers, Fair s s' u

theorem FairToAll.trans (h : FairToAll s s') (h' : FairToAll s' s'') : FairToAll s s'' where
  numUsers := h'.numUsers.trans h.numUsers
  cumulatedRewards := h'.cumulatedRewards.trans h.cumulatedRewards
  fair u hu := (h.fair u hu).trans (h'.fair u (by rwa [h.numUsers]))

/-- **A chain of ticks is fair.** -/
theorem Accounted.fair_of_ticks (hacc : s.Accounted) (hsettled : s.SettledSwaps)
    (ht : ReflTransGen (Ticked nonce) s s') : s'.SettledSwaps ∧ FairToAll s s' := by
  induction ht with
  | refl => exact ⟨hsettled, rfl, rfl, fun u => hacc.fair_refl hsettled⟩
  | tail hticks hlast ih =>
    obtain ⟨hsettled', hfair⟩ := ih
    have hacc' := hacc.ticks hticks
    obtain ⟨hnum, hcum⟩ := hlast.frame_eq
    exact ⟨hsettled'.ticked hacc'.consistent.books hlast,
      hfair.trans ⟨hnum, hcum, fun u => hlast.fair hacc' hsettled'⟩⟩

/-! ### Acts -/

/-- Rewards that arrive while funds are being swapped are the only act that matters. -/
theorem SettledSwaps.act (h : s.SettledSwaps) (ha : s.Act e s') (he : e.cleansDust = false)
    (hquiet : ∀ amount, e = .reward amount → 0 < amount →
      s.globalOpCheckpoint.swapping = false) : s'.SettledSwaps := by
  cases ha with
  | answered | received | continued => exact h
  | @rewarded amount hboot =>
    rcases Nat.eq_zero_or_pos amount with rfl | hpos
    · exact h
    · exact settledSwaps_of_not_swapping (hquiet amount rfl hpos)
  | kept _ hk =>
    rw [hk.frame]
    exact h
  | unBonded _ hun =>
    obtain ⟨-, -, -, -, -, -⟩ := hun
    exact h
  | staked hst =>
    have hop : s.globalOpCheckpoint = .none := by obtain ⟨hop, -⟩ := hst; exact hop
    exact settledSwaps_of_not_swapping
      (by rw [hst.ordinary.globalOpCheckpoint, credit_globalOpCheckpoint, hop]; rfl)
  | unStaked _ hun =>
    exact settledSwaps_of_not_swapping
      (by rw [hun.ordinary.globalOpCheckpoint, hun.books.1]; rfl)
  | claimed _ hcl =>
    have hop : s.globalOpCheckpoint = .none := by obtain ⟨hop, -⟩ := hcl; exact hop
    exact settledSwaps_of_not_swapping (by rw [hcl.ordinary.globalOpCheckpoint, hop]; rfl)
  | operated _ _ _ hopened => exact settledSwaps_of_not_swapping hopened.swapping
  | waitingCleaned | activeCleaned => cases he

/-- **To open an operation is fair.** -/
theorem Opened.fairToAll {op : Operation} {s₀ : Ledger} {orc : GlobalOpCheckpoint}
    (hacc : s.Accounted) (hop : s.globalOpCheckpoint = .none) (ho : s.Opened op s₀ orc) :
    FairToAll s (s₀.withOp orc) := by
  have hs := hacc.steady (by rw [hop]; rfl)
  have hdate : s.bootstrapMode = true → s.UpToDate := fun hboot u _ =>
    hacc.consistent.books.upToDate hboot u
  cases ho with
  | capStored hboot | bootstrapEnded hboot | feeStored _ hboot =>
    exact ⟨rfl, rfl, fun u hu => (hdate hboot).fair hu rfl rfl le_rfl fun _ => rfl⟩
  | capKept | feeKept | feeChange | capChange =>
    exact ⟨rfl, rfl, fun u _ => Neutral.fair (.inl ⟨rfl, rfl⟩) (hs.computable u)⟩

end Ledger

/-! ### Runs -/

/-- The steps of a run in which no rewards arrive while funds are being swapped. -/
def QuietSwaps (w : World) (e : Event) : Prop :=
  e.cleansDust = false ∧ ∀ amount, e = .reward amount → 0 < amount →
    w.contract.ledger.globalOpCheckpoint.swapping = false

theorem Reachable.settledSwaps {w : World} (h : Reachable QuietSwaps w) :
    w.contract.ledger.Accounted ∧ w.contract.ledger.SettledSwaps := by
  refine ⟨(h.mono fun _ _ he => he.1).accounted, ?_⟩
  have hrun : w.contract.ledger.Consistent ∧ w.contract.ledger.SettledSwaps :=
    h.ledger_invariant (J := Ledger.SettledSwaps) (fun w hw => ?_)
      (fun _ _ _ _ hJ he ha => hJ.act ha he.1 he.2) fun _ _ _ hc hJ ht => hJ.ticked hc.books ht
  · exact hrun.2
  · cases hw with
    | init h =>
      obtain ⟨_, -, h⟩ := bind_eq_ok.mp h
      obtain ⟨_, -, h⟩ := bind_eq_ok.mp h
      cases h
      exact Ledger.settledSwaps_of_not_swapping rfl

/-- **Operations are fair**, in runs in which no rewards arrive while funds are being swapped: every
transaction of an operation, whatever it moves or stores, leaves the accrued rewards of every user
as they were, or gives the owner more. -/
theorem operation_fair_of_quietSwaps {w w' : World} {env : Env} {call : Call}
    (h : Reachable QuietSwaps w) (hcall : (Event.transaction env call).operates = true)
    (hstep : Step w (.transaction env call) w') :
    w'.contract.ledger.cumulatedRewards = w.contract.ledger.cumulatedRewards ∧
    ∀ u ∈ Finset.Icc 1 w.contract.ledger.numUsers,
      ∃ before after, w.contract.ledger.accrued u = .ok before ∧
        w'.contract.ledger.accrued u = .ok after ∧ before ≤ after ∧
        (u ≠ ownerUserId → after = before) := by
  obtain ⟨hacc, hsettled⟩ := h.settledSwaps
  have hc := hacc.consistent
  have he : (Event.transaction env call).cleansDust = false := by
    cases call <;> first | rfl | cases hcall
  obtain ⟨s₁, ha, hticks⟩ := hstep.acts hc.sound hc.dust (hc.userTotal_zero rfl)
  have hchain := (hacc.act ha he).fair_of_ticks (hsettled.act ha he nofun) hticks
  have hfair : Ledger.FairToAll w.contract.ledger w'.contract.ledger := by
    cases ha with
    | operated _ hop _ hopened => exact (hopened.fairToAll hacc hop).trans hchain.2
    | continued => exact hchain.2
    | kept hadmin => cases call <;> cases hcall <;> cases hadmin
    | _ => cases hcall
  exact ⟨hfair.cumulatedRewards, hfair.fair⟩

/-- A cut of the cap from 100 to 80 is interrupted after the first user, 1007 arrive, and its second
transaction moves 20 of the second user, who keeps what had accrued. -/
theorem operation_fair_of_quietSwaps_cut :
    ∃ w w' : World, w.contract.ledger.userStakeOfType 2 .active = 40 ∧
      w'.contract.ledger.userStakeOfType 2 .active = 20 ∧
      w.contract.ledger.accrued 2 = .ok 362 ∧ w'.contract.ledger.accrued 2 = .ok 362 := by
  let events : List Event :=
    [.transaction { Env.plain 1 0 9 with payment := 60 } .stake,
      .transaction { Env.plain 7 0 9 with payment := 40 } .stake,
      .transaction { Env.plain 1 2 9 with gasLow := fun _ k => decide (k = 1) }
        (.modifyTotalDelegationCap 80)]
  have hrun : ((World.deploy 1 0 2 1000 0 9 1 100).bind (·.run events)).bind (fun w₀ =>
      (w₀.after (.reward 1007)).bind fun w =>
        (w.after (.transaction (.plain 7 3 9) .continueGlobalOperation)).map fun w' =>
          (w₀.contract.ledger.globalOpCheckpoint.swapping,
            (w.contract.ledger.accrued 2).toOption,
            [w.contract.ledger.userStakeOfType 2 .active,
              w'.contract.ledger.userStakeOfType 2 .active, w.contract.ledger.numUsers])) =
      some (false, some 362, [40, 20, 2]) := by
    decide +kernel
  obtain ⟨w₀, hw₀, hrun⟩ := Option.bind_eq_some_iff.mp hrun
  obtain ⟨w, hw, hrun⟩ := Option.bind_eq_some_iff.mp hrun
  obtain ⟨w', hw', hobs⟩ := Option.map_eq_some_iff.mp hrun
  simp only [Prod.mk.injEq, List.cons.injEq, and_true] at hobs
  obtain ⟨hquiet, haccrued, hbefore, hafter, hnum⟩ := hobs
  have hreach : Reachable QuietSwaps w₀ := by
    refine .run (fun _ h => World.initial_deploy h) (fun e he _ => ?_) hw₀
    simp only [events, List.mem_cons, List.not_mem_nil, or_false] at he
    rcases he with rfl | rfl | rfl <;> exact ⟨rfl, nofun⟩
  obtain ⟨-, hfair⟩ := operation_fair_of_quietSwaps
    (hreach.step ⟨rfl, fun _ _ _ => hquiet⟩ (World.step_after hw)) rfl (World.step_after hw')
  obtain ⟨before, after, hb, ha, -, heq⟩ := hfair 2 (by rw [hnum]; decide)
  rw [toOption_eq_some] at haccrued
  rw [haccrued, Except.ok.injEq] at hb
  exact ⟨w, w', hbefore, hafter, haccrued, by rw [ha, heq (by decide), ← hb]⟩

/-- In a cut of the cap from 100 to 80, the gas is low as soon as the active funds are to be
swapped. 1000 arrive, of which the second user is due 360 with 40 of 100 staked, and the next
transaction leaves it with 20 of 80 and 225. -/
theorem operation_fair_of_lateReward :
    ∃ (w w' : World) (env : Env), Reachable (fun _ e => e.cleansDust = false) w ∧
      w.contract.ledger.bootstrapMode = false ∧
      Step w (.transaction env .continueGlobalOperation) w' ∧
      w'.contract.ledger.cumulatedRewards = w.contract.ledger.cumulatedRewards ∧
      w.contract.ledger.accrued 2 = .ok 360 ∧ w'.contract.ledger.accrued 2 = .ok 225 := by
  let events : List Event :=
    [.transaction { Env.plain 1 0 9 with payment := 60 } .stake,
      .transaction { Env.plain 7 0 9 with payment := 40 } .stake,
      .transaction { Env.plain 1 2 9 with gasLow := fun i _ => decide (i = 3) }
        (.modifyTotalDelegationCap 80), .reward 1000]
  have hrun : ((World.deploy 1 0 2 1000 0 9 1 100).bind (·.run events)).bind (fun w =>
      (w.after (.transaction (.plain 7 3 9) .continueGlobalOperation)).map fun w' =>
        (w.contract.ledger.bootstrapMode, w'.contract.ledger.cumulatedRewards,
          w.contract.ledger.cumulatedRewards, (w.contract.ledger.accrued 2).toOption,
          (w'.contract.ledger.accrued 2).toOption)) =
      some (false, 1000, 1000, some 360, some 225) := by
    decide +kernel
  obtain ⟨w, hw, hrun⟩ := Option.bind_eq_some_iff.mp hrun
  obtain ⟨w', hw', hobs⟩ := Option.map_eq_some_iff.mp hrun
  simp only [Prod.mk.injEq, toOption_eq_some] at hobs
  obtain ⟨hboot, hcum', hcum, hbefore, hafter⟩ := hobs
  have hreach : Reachable (fun _ e => e.cleansDust = false) w := by
    refine .run (fun _ h => World.initial_deploy h) (fun e he _ => ?_) hw
    simp only [events, List.mem_cons, List.not_mem_nil, or_false] at he
    rcases he with rfl | rfl | rfl | rfl <;> rfl
  exact ⟨w, w', _, hreach, hboot, World.step_after hw', hcum'.trans hcum.symm, hbefore, hafter⟩

end Delegation
