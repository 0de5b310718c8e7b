import Delegation.Fund.Checkpoint
import Delegation.Latest.Consistent

/-!
# Resuming a dust cleanup

Both endpoints of dust cleanup go on from one stored id, and neither asks what stands there. Between
two calls the item can be deleted, and the other endpoint can have stored the id.

Where the cell is cleared, `dustCleanupWaitingList` deletes it as if it were the only `WithdrawOnly`
item of all (`dustCleanup_intact_iff` says when the lists survive). Where the id is that of a live
item of the other list, the cleanup sweeps that list (`cleansOwnList_iff` says when it does not).
-/

namespace Delegation

open Outcome FundStore DoublyLinked

/-- The endpoints of dust cleanup. -/
inductive DustCleanup
  | waitingList
  | active
  deriving DecidableEq

/-- The list that a cleanup is for. -/
def DustCleanup.own : DustCleanup → FundType
  | .waitingList => .waiting
  | .active => .active

/-- What a cleanup makes of dust. -/
def DustCleanup.target : DustCleanup → FundDescription
  | .waitingList => .withdrawOnly
  | .active => .unStaked 0

namespace FundStore

variable {s : FundStore}

theorem Intact.swapWaitingToActive (h : s.Intact) (remaining : ℕ) (interrupt : ℕ → Bool) :
    Spec (s.swapWaitingToActive remaining interrupt) (fun r => r.1.Intact) (fun _ => True) := by
  refine Spec.bind (h.splitConvertMaxByType ?_) fun _ hr => hr
  intro _ _ item d _ _ hr
  cases hr
  decide

theorem Intact.getAffectedUsersOfSwapWaitingToActive (h : s.Intact) (amount : ℕ)
    (interrupt : ℕ → Bool) :
    Spec (s.getAffectedUsersOfSwapWaitingToActive amount interrupt) (fun r => r.1.Intact)
      (fun _ => True) := by
  refine Spec.bind (h.splitConvertMaxByType ?_) fun _ hr => hr
  intro _ _ item d _ _ hr
  cases hr
  decide

theorem Intact.swapUnstakedToDeferredPayment (h : s.Intact) (remaining : ℕ)
    (interrupt : ℕ → Bool) :
    Spec (s.swapUnstakedToDeferredPayment remaining interrupt) (fun r => r.1.Intact)
      (fun _ => True) := by
  refine Spec.bind (h.splitConvertMaxByType ?_) fun _ hr => hr
  intro _ _ item d _ ht hr
  have hd : unstakedToDeferred item.fundDesc = some d := congrArg Prod.fst (Except.ok.inj hr)
  obtain ⟨d', hd', htype⟩ := unstakedToDeferred_of_fundType item.fundDesc ht
  rw [hd', Option.some.injEq] at hd
  rw [← hd, htype]
  decide

end FundStore

namespace Ledger

variable {s s' : Ledger} {env : Env} {dustLimit : ℕ} {cleanup : DustCleanup}

/-! ### The lists -/

/-- The call of a dust cleanup. -/
def dustCleanup (s : Ledger) (env : Env) (dustLimit : ℕ) : DustCleanup → Exec Ledger
  | .waitingList => s.dustCleanupWaitingList env dustLimit
  | .active => s.dustCleanupActive env dustLimit

/-- Computing rewards does not touch the lists. -/
theorem swapWaitingToActiveComputeRewards_intact (h : s.funds.Intact) (swappable : ℕ) :
    Spec (s.swapWaitingToActiveComputeRewards swappable) (fun s' => s'.funds.Intact)
      (fun _ => True) := by
  refine Spec.bind (h.getAffectedUsersOfSwapWaitingToActive swappable never) fun r hr => ?_
  refine Spec.bind (spec_require fun _ => trivial) fun _ _ => ?_
  refine Spec.bind ((computeOneUserReward_spec _ ownerUserId).mono (fun _ h => h)
    fun _ _ => trivial) fun s₁ h₁ => ?_
  refine Spec.bind ((s₁.computeAffectedUserRewards_spec r.2.1).mono (fun _ h => h)
    fun _ _ => trivial) fun s₂ h₂ => ?_
  have hfunds : s₂.funds.Intact := by
    rw [h₂.funds, h₁.funds]
    exact hr
  refine Spec.bind (hfunds.swapWaitingToActive swappable never) fun r' hr' => ?_
  exact Spec.bind (spec_require fun _ => trivial) fun _ _ => hr'

theorem useWaitingToReplaceUnstaked_intact (h : s.funds.Intact) :
    Spec s.useWaitingToReplaceUnstaked (fun s' => s'.funds.Intact) (fun _ => True) := by
  simp only [useWaitingToReplaceUnstaked]
  split_ifs with hb hmin
  · refine Spec.bind (h.swapUnstakedToDeferredPayment _ never) fun r hr => ?_
    refine Spec.bind (spec_require fun _ => trivial) fun _ _ => ?_
    refine Spec.bind (P := fun _ => True) (Spec.of_forall_ok fun _ _ => trivial)
      fun fillable _ => ?_
    exact Spec.bind (hr.swapWaitingToActive fillable never) fun r' hr' => hr'
  · exact h
  · refine Spec.bind (h.swapUnstakedToDeferredPayment _ never) fun r hr => ?_
    refine Spec.bind (spec_require fun _ => trivial) fun _ _ => ?_
    exact swapWaitingToActiveComputeRewards_intact hr _

theorem changesType_withdrawOnly {t : FundType} (ht : t ≠ .withdrawOnly) :
    ChangesType t (pureFilter fun _ => some .withdrawOnly) := by
  intro _ _ _ d _ _ hr
  cases hr
  exact ht.symm

theorem changesType_dustCleanupActiveFilter {t : FundType} (ht : t ≠ .unStaked) :
    ChangesType t dustCleanupActiveFilter := by
  intro funds c item d c' _ hr
  simp only [dustCleanupActiveFilter] at hr
  split_ifs at hr
  · cases hr
  · obtain ⟨_, -, hr⟩ := bind_eq_ok.mp hr
    cases hr
    exact ht.symm

/-- The cell at the stored id is cleared, and the cleanup of the waiting list converts it: it has
the gas to look at it, and takes its balance of 0 for dust. -/
def ConvertsCleared (s : Ledger) (env : Env) (dustLimit : ℕ) (cleanup : DustCleanup) : Prop :=
  cleanup = .waitingList ∧ s.dustCleanupCheckpoint ≠ 0 ∧
    ¬ s.funds.Live s.dustCleanupCheckpoint ∧ env.gasLow 0 0 = false ∧ 0 < dustLimit

/-- A sweep by either endpoint, when no cleared cell is converted. -/
theorem swapDust_intact {lay : Layout} (env : Env) (dustLimit : ℕ)
    (hl : Linked (fun _ => True) s.funds lay) (hdust : s.DustTracked) {σ : Type} {closure : σ}
    {own : FundType} (hown : own = .waiting ∨ own = .active)
    {filterTransform : FundStore → σ → FundItem → Exec (Option FundDescription × σ)}
    (hfilter : ∀ t, t = .waiting ∨ t = .active → ChangesType t filterTransform)
    (hcleared : s.dustCleanupCheckpoint ≠ 0 → ¬ s.funds.Live s.dustCleanupCheckpoint →
      env.gasLow 0 0 = true ∨
        dustFilter dustLimit filterTransform s.funds closure FundItem.default =
          .ok (none, closure)) :
    Spec (s.funds.swapDust closure s.dustCleanupCheckpoint dustLimit own filterTransform
      (env.gasLow 0) env.fuel) (fun r => r.1.Intact) (fun _ => True) := by
  by_cases h0 : s.dustCleanupCheckpoint = 0
  · exact Intact.swapDust ⟨lay, hl⟩ (hfilter own hown) (.inl ⟨h0, rfl⟩) _ _ _
  by_cases hlive : s.funds.Live s.dustCleanupCheckpoint
  · exact Intact.swapDust ⟨lay, hl⟩ (hfilter _ (hdust.fundType hlive))
      (.inr ⟨hlive, rfl, rfl⟩) _ _ _
  · have hcell := hl.cleared _ h0 hlive
    rcases hcleared h0 hlive with hgas | hreject
    · refine Spec.of_forall_ok fun r hr => ?_
      simp only [swapDust, splitConvertMaxByTypeWithCheckpoint, Traversal.run, if_neg h0] at hr
      rw [Loop.whileLoop_of_not_guard (by simp [Traversal.guard, hgas])] at hr
      cases hr
      exact ⟨lay, hl⟩
    · rw [swapDust_of_reject h0 hcell hreject]
      split_ifs
      · exact ⟨lay, hl⟩
      · trivial
      · exact ⟨lay, hl⟩

/-- Cleaning the active list keeps the lists: the default item belongs to nobody, and is skipped. -/
theorem dustCleanupActive_intact (hs : s.funds.Intact) (hdust : s.DustTracked) (env : Env)
    (dustLimit : ℕ) :
    Spec (s.dustCleanupActive env dustLimit) (fun s' => s'.funds.Intact) (fun _ => True) := by
  refine Spec.bind (spec_require fun _ => trivial) fun _ _ => ?_
  refine Spec.bind (spec_require fun _ => trivial) fun _ _ => ?_
  refine Spec.bind ((s.computeOneUserReward_spec ownerUserId).mono (fun _ h => h)
    fun _ _ => trivial) fun mid hset => ?_
  have hmid : mid.DustTracked := by
    rw [hset.frame]
    exact ⟨hdust.le_max, hdust.fundType⟩
  obtain ⟨lay, hl⟩ : mid.funds.Intact := by
    rw [hset.funds]
    exact hs
  refine Spec.bind (P := fun s => s.funds.Intact) ?_ fun swept hswept =>
    useWaitingToReplaceUnstaked_intact hswept
  refine Spec.bind (swapDust_intact env dustLimit hl hmid (.inr rfl)
    (fun t ht => changesType_dustCleanupActiveFilter ?_) fun _ _ => .inr ?_) fun r hr => hr
  · rcases ht with rfl | rfl <;> decide
  · simp [dustFilter, dustCleanupActiveFilter, FundItem.default]

/-- Cleaning the waiting list without converting a cleared cell keeps the lists. -/
theorem dustCleanupWaitingList_intact (hs : s.funds.Intact) (hdust : s.DustTracked)
    (hnot : ¬ s.ConvertsCleared env dustLimit .waitingList) :
    Spec (s.dustCleanupWaitingList env dustLimit) (fun s' => s'.funds.Intact) (fun _ => True) := by
  obtain ⟨lay, hl⟩ := hs
  refine Spec.bind (spec_require fun _ => trivial) fun _ _ => ?_
  refine Spec.bind (spec_require fun _ => trivial) fun _ _ => ?_
  refine Spec.bind (swapDust_intact env dustLimit hl hdust (.inl rfl)
    (fun t ht => changesType_withdrawOnly ?_) fun h0 hlive => ?_) fun r hr => hr
  · rcases ht with rfl | rfl <;> decide
  · cases hgas : env.gasLow 0 0 with
    | true => exact .inl rfl
    | false =>
      refine .inr (if_neg fun hpos => hnot ⟨rfl, h0, hlive, hgas, hpos⟩)

/-- Converting a cleared cell deletes the default item, and nothing else happens. -/
theorem ConvertsCleared.deleteDefault (h : s.ConvertsCleared env dustLimit .waitingList)
    (hs : s.funds.Intact) (hcall : s.dustCleanupWaitingList env dustLimit = .ok s') :
    s' = { s with funds := s.funds.deleteDefault, dustCleanupCheckpoint := 0 } := by
  obtain ⟨lay, hl⟩ := hs
  obtain ⟨-, h0, hlive, hgas, hpos⟩ := h
  obtain ⟨_, -, hcall⟩ := bind_eq_ok.mp hcall
  obtain ⟨_, -, hcall⟩ := bind_eq_ok.mp hcall
  rw [swapDust_of_cleared h0 (hl.cleared _ h0 hlive) hpos, if_neg (by simp [hgas])] at hcall
  split_ifs at hcall
  · cases hcall
  · exact (Except.ok.inj hcall).symm

/-- **Resuming a dust cleanup** keeps all the lists, exactly when it does not convert a cleared cell
while there are `WithdrawOnly` items. -/
theorem dustCleanup_intact_iff (hs : s.funds.Intact) (hdust : s.DustTracked)
    (hcall : s.dustCleanup env dustLimit cleanup = .ok s') :
    s'.funds.Intact ↔
      ¬ (s.ConvertsCleared env dustLimit cleanup ∧ s.funds.typeTotal .withdrawOnly ≠ 0) := by
  by_cases hconv : s.ConvertsCleared env dustLimit cleanup
  · obtain rfl := hconv.1
    rw [hconv.deleteDefault hs hcall]
    simp [hconv, intact_deleteDefault_iff hs]
  · simp only [hconv, false_and, not_false_eq_true, iff_true]
    cases cleanup with
    | waitingList => exact (dustCleanupWaitingList_intact hs hdust hconv).of_ok hcall
    | active => exact (dustCleanupActive_intact hs hdust env dustLimit).of_ok hcall

/-- A cleanup of the waiting list is interrupted after the second of two items of a user, who then
unstakes the first one, at which the stored id stands. -/
theorem exists_stale : ∃ (w : World) (s₁ s₂ : Ledger),
    Reachable (fun _ _ => True) w ∧ w.contract.ledger.funds.Intact ∧
    w.contract.ledger.dustCleanup (.plain 1 1 9) 10 .waitingList = .ok s₁ ∧
    w.contract.ledger.dustCleanup (.plain 1 1 9) 10 .active = .ok s₂ ∧
    (s₁.funds.fundListByType .withdrawOnly).first = 0 ∧
    s₁.funds.typeTotal .withdrawOnly = 10 := by
  let events : List Event :=
    [.transaction { Env.plain 7 0 9 with payment := 10 } .stake,
      .transaction { Env.plain 8 0 9 with payment := 5 } .stake,
      .transaction { Env.plain 8 1 9 with payment := 5 } .stake,
      .transaction { Env.plain 1 1 9 with gasLow := fun _ k => decide (k = 1) }
        (.dustCleanupWaitingList 10),
      .transaction (.plain 8 1 9) (.unStake 5)]
  have hrun : ((World.deploy 1 0 2 0 0 9 1 10).bind (·.run events)).bind (fun w => do
      let s := w.contract.ledger
      let s₁ ← (s.dustCleanup (.plain 1 1 9) 10 .waitingList).toOption
      let _ ← (s.dustCleanup (.plain 1 1 9) 10 .active).toOption
      let list := s.funds.fundListByType .withdrawOnly
      let item := s.funds.fundById 5
      return (item.fundDesc, [item.balance, s.funds.typeTotal .withdrawOnly, list.first, list.last,
        item.typeListNext, item.typeListPrev, (s₁.funds.fundListByType .withdrawOnly).first,
        s₁.funds.typeTotal .withdrawOnly])) =
      some (.withdrawOnly, [10, 10, 5, 5, 0, 0, 0, 10]) := by
    decide +kernel
  obtain ⟨w, hw, hrun⟩ := Option.bind_eq_some_iff.mp hrun
  obtain ⟨s₁, hs₁, hrun⟩ := Option.bind_eq_some_iff.mp hrun
  obtain ⟨s₂, hs₂, hobs⟩ := Option.bind_eq_some_iff.mp hrun
  simp only [Option.pure_def, Option.some.injEq, Prod.mk.injEq, List.cons.injEq, and_true] at hobs
  obtain ⟨hdesc, hbalance, htotal, hfirst, hlast, hnext, hprev, hfirst₁, htotal₁⟩ := hobs
  have hreach : Reachable (fun _ _ => True) w :=
    .run (fun _ h => World.initial_deploy h) (fun _ _ _ => trivial) hw
  obtain ⟨lay, hl, -⟩ := hreach.consistent.sound
  refine ⟨w, s₁, s₂, hreach, ?_, toOption_eq_some.mp hs₁, toOption_eq_some.mp hs₂, hfirst₁,
    htotal₁⟩
  refine hl.intact_of_single (fun _ ht => ht) 5 ?_ ?_ (htotal.trans hbalance.symm) ?_ hnext
    hprev
  · simp [Live, hbalance]
  · simp [FundItem.fundType, hdesc, FundDescription.fundType]
  · simp [Family.list, hfirst, hlast]

/-- **The lists do not survive every cleanup**: after this one the list of all `WithdrawOnly` items
has lost its ends, and the item of 10 in it. -/
theorem not_dustCleanup_intact : ∃ (w : World) (s' : Ledger), Reachable (fun _ _ => True) w ∧
    w.contract.ledger.funds.Intact ∧
    w.contract.ledger.dustCleanupWaitingList (.plain 1 1 9) 10 = .ok s' ∧ ¬ s'.funds.Intact := by
  obtain ⟨w, s₁, _, hreach, hs, hs₁, -, hfirst, htotal⟩ := exists_stale
  refine ⟨w, s₁, hreach, hs, hs₁, fun hs' => hs'.first_ne_zero ?_ hfirst⟩
  rw [htotal]
  decide

/-- In the same state the other cleanup keeps the lists. -/
theorem dustCleanup_intact_iff_active : ∃ (w : World) (s' : Ledger),
    w.contract.ledger.dustCleanup (.plain 1 1 9) 10 .active = .ok s' ∧ s'.funds.Intact := by
  obtain ⟨w, _, s₂, hreach, hs, -, hs₂, -⟩ := exists_stale
  exact ⟨w, s₂, hs₂, (dustCleanup_intact_iff hs hreach.consistent.dust hs₂).mpr
    fun hconv => nomatch hconv.1.1⟩

/-! ### The list that is cleaned -/

/-- `dustCleanupWaitingList`, or the traversal phase of `dustCleanupActive`. -/
inductive Traverses (s : Ledger) (env : Env) (dustLimit : ℕ) : DustCleanup → Ledger → Prop
  | waitingList {s' : Ledger} (hcall : s.dustCleanupWaitingList env dustLimit = .ok s') :
      Traverses s env dustLimit .waitingList s'
  | active {mid s' : Ledger} (howner : s.computeOneUserReward ownerUserId = .ok mid)
      (hcall : mid.dustCleanupActiveTraversal env dustLimit = .ok s') :
      Traverses s env dustLimit .active s'

theorem waitingList_cleansOwnList_iff (h : s.Consistent)
    (hcall : s.dustCleanupWaitingList env dustLimit = .ok s') :
    CleansOwnList .waiting .withdrawOnly dustLimit s.funds s'.funds s.dustCleanupCheckpoint
        s'.dustCleanupCheckpoint ↔
      Resumable .waiting dustLimit s.funds s.dustCleanupCheckpoint (env.gasLow 0) := by
  obtain ⟨_, -, hcall⟩ := bind_eq_ok.mp hcall
  obtain ⟨_, -, hcall⟩ := bind_eq_ok.mp hcall
  obtain ⟨⟨funds, _, nextId⟩, hswap, hcall⟩ := bind_eq_ok.mp hcall
  cases hcall
  have hcleaned : ∀ t : FundType, (t = .waiting ∨ t = .active) → Relied t ∧
      FundDescription.withdrawOnly.fundType ≠ t ∧
      ChangesType t (pureFilter fun _ => some .withdrawOnly) ∧
      DustFilterSpec Relied t .withdrawOnly (pureFilter fun _ => some .withdrawOnly)
        fun _ _ => True := by
    intro t ht
    have hne : t ≠ .withdrawOnly := by rcases ht with rfl | rfl <;> decide
    exact ⟨hne, hne.symm, changesType_withdrawOnly hne, dustFilterSpec_some Relied t .withdrawOnly⟩
  refine FundStore.Sound.swapDust_cleansOwnList h.sound hcleaned (.inl rfl) h.dust.fundType
    (fun t _ a closure r _ hr => ?_) hswap fun h0 hlive => ?_
  · cases hr
    exact Option.some_ne_none _
  · obtain ⟨lay, hl, -⟩ := h.sound
    have hcell := hl.cleared _ h0 hlive
    rcases Nat.eq_zero_or_pos dustLimit with rfl | hpos
    · have hreject : dustFilter 0 (pureFilter fun _ => some .withdrawOnly) s.funds ()
          FundItem.default = .ok (none, ()) := if_neg (Nat.not_lt_zero _)
      rw [swapDust_of_reject h0 hcell hreject] at hswap
      exact cleansOwnList_of_cleared h0 rfl rfl (fun _ => rfl) (fun _ _ => rfl) hswap
    · rw [swapDust_of_cleared h0 hcell hpos] at hswap
      have hfunds : s.funds.deleteDefault.fundById = s.funds.fundById := rfl
      exact cleansOwnList_of_cleared h0 hfunds rfl (deleteDefault_typeTotal _)
        (deleteDefault_userTotal _) hswap

theorem active_cleansOwnList_iff (hs : s.FundsSound) (hdust : s.DustTracked)
    (hzero : ∀ t, t = .waiting ∨ t = .active → s.funds.userTotal 0 t = 0)
    (hcall : s.dustCleanupActiveTraversal env dustLimit = .ok s') :
    CleansOwnList .active (.unStaked 0) dustLimit s.funds s'.funds s.dustCleanupCheckpoint
        s'.dustCleanupCheckpoint ↔
      Resumable .active dustLimit s.funds s.dustCleanupCheckpoint (env.gasLow 0) := by
  obtain ⟨⟨funds, c, nextId⟩, hswap, hcall⟩ := bind_eq_ok.mp hcall
  cases hcall
  have hcleaned : ∀ t : FundType, (t = .waiting ∨ t = .active) → Relied t ∧
      (FundDescription.unStaked 0).fundType ≠ t ∧ ChangesType t dustCleanupActiveFilter ∧
      DustFilterSpec Relied t (.unStaked 0) dustCleanupActiveFilter fun _ _ => True := by
    intro t ht
    have hrelied : Relied t := by rcases ht with rfl | rfl <;> decide
    have hne : t ≠ .unStaked := by rcases ht with rfl | rfl <;> decide
    refine ⟨hrelied, hne.symm, changesType_dustCleanupActiveFilter hne, ?_⟩
    intro funds lay c id r _ _ _ _ hr
    simp only [dustCleanupActiveFilter] at hr
    split_ifs at hr
    · cases hr
      trivial
    · obtain ⟨_, -, hr⟩ := bind_eq_ok.mp hr
      cases hr
      exact ⟨rfl, fun _ _ _ => trivial⟩
  refine FundStore.Sound.swapDust_cleansOwnList hs hcleaned (.inr rfl) hdust.fundType
    (fun t ht a closure r hhas hr => ?_) hswap fun h0 hlive => ?_
  · -- the item has a user
    have huser : (s.funds.fundById a).userId ≠ 0 := fun hu => by
      obtain ⟨lay, hl, -⟩ := hs
      have hle := hl.balance_le_userTotal hhas.1
      have htype : (s.funds.fundById a).fundType = t := hhas.2.1
      rw [hu, htype, hzero t ht] at hle
      exact absurd hhas.1 (not_lt.mpr hle)
    simp only [dustCleanupActiveFilter, if_neg huser] at hr
    obtain ⟨_, -, hr⟩ := bind_eq_ok.mp hr
    cases hr
    exact Option.some_ne_none _
  · obtain ⟨lay, hl, -⟩ := hs
    have hreject : dustFilter dustLimit dustCleanupActiveFilter s.funds s FundItem.default =
        .ok (none, s) := by
      simp [dustFilter, dustCleanupActiveFilter, FundItem.default]
    rw [swapDust_of_reject h0 (hl.cleared _ h0 hlive) hreject] at hswap
    exact cleansOwnList_of_cleared h0 rfl rfl (fun _ => rfl) (fun _ _ => rfl) hswap

/-- **Cleaning dust touches its own list only**, in every reachable state, exactly when the stored
id is one to go on from: zero, the id of an item of the list, a cleared cell that there is the gas
to look at, or an item of the other list in which there is nothing to sweep. -/
theorem cleansOwnList_iff {w : World} (h : Reachable (fun _ _ => True) w)
    (hcall : w.contract.ledger.Traverses env dustLimit cleanup s') :
    CleansOwnList cleanup.own cleanup.target dustLimit w.contract.ledger.funds s'.funds
        w.contract.ledger.dustCleanupCheckpoint s'.dustCleanupCheckpoint ↔
      Resumable cleanup.own dustLimit w.contract.ledger.funds
        w.contract.ledger.dustCleanupCheckpoint (env.gasLow 0) := by
  have hc := h.consistent
  cases hcall with
  | waitingList hcall => exact waitingList_cleansOwnList_iff hc hcall
  | @active mid _ howner hcall =>
    -- computing the rewards of the owner touches neither the funds nor the stored id
    have hset := (computeOneUserReward_spec _ _).of_ok howner
    have hcp : mid.dustCleanupCheckpoint = w.contract.ledger.dustCleanupCheckpoint := by
      rw [hset.frame]
    have hdust : mid.DustTracked := by
      rw [hset.frame]
      exact ⟨hc.dust.le_max, hc.dust.fundType⟩
    rw [← hset.funds, ← hcp]
    refine active_cleansOwnList_iff ?_ hdust (fun t ht => ?_) hcall
    · unfold FundsSound
      rw [hset.funds]
      exact hc.sound
    · rw [hset.funds]
      exact hc.userTotal_zero (by rcases ht with rfl | rfl <;> rfl)

/-- **Cleaning dust does not always touch its own list only**: a cleanup of the active list is
interrupted after the second of two items, and the cleanup of the waiting list that follows
withdraws the first one, which is active. -/
theorem not_cleansOwnList : ∃ (w : World) (s' : Ledger), Reachable (fun _ _ => True) w ∧
    w.contract.ledger.dustCleanupWaitingList (.plain 1 1 9) 10 = .ok s' ∧
    w.contract.ledger.funds.typeTotal .active = 6 ∧ s'.funds.typeTotal .active = 0 ∧
    ¬ CleansOwnList .waiting .withdrawOnly 10 w.contract.ledger.funds s'.funds
      w.contract.ledger.dustCleanupCheckpoint s'.dustCleanupCheckpoint := by
  let events : List Event :=
    [.transaction { Env.plain 7 0 9 with payment := 6 } .stake,
      .transaction { Env.plain 8 0 9 with payment := 5 } .stake,
      .transaction { Env.plain 1 1 9 with gasLow := fun _ k => decide (k = 1) }
        (.dustCleanupActive 10)]
  have hrun : ((World.deploy 1 0 2 0 0 9 1 100).bind (·.run events)).bind (fun w =>
      (w.contract.ledger.dustCleanupWaitingList (.plain 1 1 9) 10).toOption.map fun s' =>
        (w.contract.ledger.funds.typeTotal .active, s'.funds.typeTotal .active)) =
      some (6, 0) := by
    decide +kernel
  obtain ⟨w, hw, hrun⟩ := Option.bind_eq_some_iff.mp hrun
  obtain ⟨s', hs', hobs⟩ := Option.map_eq_some_iff.mp hrun
  rw [Prod.mk.injEq] at hobs
  refine ⟨w, s', .run (fun _ h => World.initial_deploy h) (fun _ _ _ => trivial) hw,
    toOption_eq_some.mp hs', hobs.1, hobs.2, fun hclean => ?_⟩
  have hactive := hclean.typeTotal .active (by decide) (by decide)
  omega

/-- The same cleanup of the waiting list, after one that came to the end of the active list. -/
theorem cleansOwnList_iff_start : ∃ (w : World) (s' : Ledger),
    w.contract.ledger.funds.typeTotal .waiting = 5 ∧ s'.funds.typeTotal .waiting = 0 ∧
    CleansOwnList .waiting .withdrawOnly 10 w.contract.ledger.funds s'.funds
      w.contract.ledger.dustCleanupCheckpoint s'.dustCleanupCheckpoint := by
  let events : List Event :=
    [.transaction { Env.plain 7 0 9 with payment := 10 } .stake,
      .transaction { Env.plain 8 0 9 with payment := 5 } .stake,
      .transaction (.plain 1 1 9) (.dustCleanupActive 10)]
  have hrun : ((World.deploy 1 0 2 0 0 9 1 10).bind (·.run events)).bind (fun w =>
      (w.contract.ledger.dustCleanupWaitingList (.plain 1 1 9) 10).toOption.map fun s' =>
        [w.contract.ledger.dustCleanupCheckpoint, w.contract.ledger.funds.typeTotal .waiting,
          s'.funds.typeTotal .waiting]) = some [0, 5, 0] := by
    decide +kernel
  obtain ⟨w, hw, hrun⟩ := Option.bind_eq_some_iff.mp hrun
  obtain ⟨s', hs', hobs⟩ := Option.map_eq_some_iff.mp hrun
  simp only [List.cons.injEq, and_true] at hobs
  have hreach : Reachable (fun _ _ => True) w :=
    .run (fun _ h => World.initial_deploy h) (fun _ _ _ => trivial) hw
  exact ⟨w, s', hobs.2.1, hobs.2.2,
    (cleansOwnList_iff hreach (.waitingList (toOption_eq_some.mp hs'))).mpr (.start hobs.1)⟩

end Ledger

end Delegation
