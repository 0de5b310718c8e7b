import Delegation.Latest.ProRata
import Delegation.Latest.Views

/-!
# Rewards that are shown are not lost

`getClaimableRewards` and `getTotalUnclaimedRewards` compute what they show under the stakes, the
cap and the fee of the moment, and all of these change. What is shown does not go down all the same:
in runs in which no rewards arrive while funds are swapped, what a user is shown and what
`claimRewards` has sent to it never becomes less, and without an arrival it stays the same, but for
the remainder that an operation gives to the owner (`claimable_of_run`). The total is the sum over
the users and follows them.

What is shown is `updatedUnclaimed` in all these states, while funds are swapped because nothing is
due to anybody then.
-/

namespace Delegation

open Outcome FundStore Relation

namespace Ledger

variable {s s' : Ledger} {env : Env} {e : Event} {nonce : UInt64} {u : ℕ}

/-! ### The views -/

/-- `getTotalUnclaimedRewards` -/
def totalUnclaimedRewards (s : Ledger) : Exec ℕ :=
  (List.range' 1 s.numUsers).foldlM (fun sumUnclaimed userId => do
    let userData ← s.loadUpdatedUserRewards userId
    return sumUnclaimed + userData.unclaimedRewards) 0

/-- The addresses of the users. -/
def knownAddresses (s : Ledger) : Finset Address := (Finset.Icc 1 s.numUsers).image s.addressOf

theorem Registered.mem_knownAddresses (h : s.Registered) (hk : s.UsersKnown) {a : Address} :
    a ∈ s.knownAddresses ↔ s.userId a ≠ 0 := by
  simp only [knownAddresses, Finset.mem_image, Finset.mem_Icc]
  constructor
  · rintro ⟨v, hv, rfl⟩
    rw [h.userId_addressOf (by omega) hv.2]
    omega
  · intro ha
    have hle := hk.userId_le a
    exact ⟨s.userId a, ⟨by omega, hle⟩, (h.addressOf_eq_iff ha hle).mpr rfl⟩

/-- A sum over the addresses is one over the ids. -/
theorem Registered.sum_knownAddresses (h : s.Registered) (f : Address → ℕ) :
    ∑ a ∈ s.knownAddresses, f a = ∑ v ∈ Finset.Icc 1 s.numUsers, f (s.addressOf v) := by
  refine Finset.sum_image fun v hv v' hv' heq => ?_
  rw [Finset.mem_coe, Finset.mem_Icc] at hv hv'
  rw [← h.userId_addressOf (u := v) (by omega) hv.2, heq,
    h.userId_addressOf (u := v') (by omega) hv'.2]

/-! ### What is shown -/

/-- **What is accrued is what the formula says**, also while funds are swapped. -/
theorem Accounted.loadUpdatedUserRewards_eq (hacc : s.Accounted) (hsettled : s.SettledSwaps)
    (hu : u ∈ Finset.Icc 1 s.numUsers) :
    s.loadUpdatedUserRewards u = .ok ⟨s.cumulatedRewards, s.updatedUnclaimed u⟩ := by
  cases hsw : s.globalOpCheckpoint.swapping with
  | false => exact ((hacc.steady hsw).computable u).loadUpdatedUserRewards_eq
  | true =>
    have hdate := hsettled hsw u hu
    rw [loadUpdatedUserRewards_of_eq hdate]
    simp [loadUserRewardData, updatedUnclaimed, pending, hdate]

theorem Accounted.accrued_eq (hacc : s.Accounted) (hsettled : s.SettledSwaps)
    (hu : u ∈ Finset.Icc 1 s.numUsers) : s.accrued u = .ok (s.updatedUnclaimed u) := by
  rw [accrued, hacc.loadUpdatedUserRewards_eq hsettled hu]
  rfl

/-- What `getClaimableRewards` shows. -/
def claimable (s : Ledger) (user : Address) : ℕ :=
  if s.userId user = 0 then 0 else s.updatedUnclaimed (s.userId user)

/-- What `getTotalUnclaimedRewards` shows. -/
def totalUnclaimed (s : Ledger) : ℕ := ∑ u ∈ Finset.Icc 1 s.numUsers, s.updatedUnclaimed u

theorem UsersKnown.userId_mem (h : s.UsersKnown) {a : Address} (ha : s.userId a ≠ 0) :
    s.userId a ∈ Finset.Icc 1 s.numUsers :=
  Finset.mem_Icc.mpr ⟨Nat.one_le_iff_ne_zero.mpr ha, h.userId_le a⟩

/-- What the views show of one state: they do not panic, the total is the sum over the addresses,
and all of it has arrived and has not been sent. -/
structure ShowsRewards (s : Ledger) : Prop where
  claimable : ∀ a, s.claimableRewards a = .ok (s.claimable a)
  totalUnclaimed : s.totalUnclaimedRewards = .ok s.totalUnclaimed
  totalUnclaimed_eq : s.totalUnclaimed = ∑ a ∈ s.knownAddresses, s.claimable a
  totalUnclaimed_le : s.totalUnclaimed + s.sentRewards ≤ s.cumulatedRewards

theorem Accounted.totalUnclaimedRewards_eq (hacc : s.Accounted) (hsettled : s.SettledSwaps) :
    s.totalUnclaimedRewards = .ok s.totalUnclaimed := by
  have hfold : ∀ n ≤ s.numUsers, (List.range' 1 n).foldlM (fun sumUnclaimed userId => do
      let userData ← s.loadUpdatedUserRewards userId
      return sumUnclaimed + userData.unclaimedRewards) 0 =
        .ok (∑ v ∈ Finset.Icc 1 n, s.updatedUnclaimed v) := by
    intro n
    induction n with
    | zero => exact fun _ => rfl
    | succ n ih =>
      intro hn
      rw [List.range'_1_concat, List.foldlM_append, ih (by omega), ok_bind, List.foldlM_cons,
        add_comm 1 n, hacc.loadUpdatedUserRewards_eq hsettled
          (Finset.mem_Icc.mpr ⟨by omega, hn⟩), Finset.sum_Icc_succ_top (by omega)]
      rfl
  exact hfold _ le_rfl

/-- All that is shown has arrived, and has not been sent. -/
theorem Accounted.totalUnclaimed_le (hacc : s.Accounted) (hsettled : s.SettledSwaps) :
    s.totalUnclaimed + s.sentRewards ≤ s.cumulatedRewards := by
  cases hsw : s.globalOpCheckpoint.swapping with
  | false => exact (hacc.rewardsCovered.solvent hsw).sum_updated_le hacc.consistent.books
  | true =>
    have hstored : ∀ v ∈ Finset.Icc 1 s.numUsers,
        s.updatedUnclaimed v = s.userRewUnclaimed v := fun v hv => by
      simp [updatedUnclaimed, pending, hsettled hsw v hv]
    rw [totalUnclaimed, Finset.sum_congr rfl hstored]
    exact hacc.sum_le

theorem Accounted.showsRewards (hacc : s.Accounted) (hsettled : s.SettledSwaps)
    (hreg : s.Registered) : s.ShowsRewards where
  claimable a := by
    unfold claimableRewards Ledger.claimable
    split_ifs with ha
    · rfl
    · rw [hacc.loadUpdatedUserRewards_eq hsettled (hacc.consistent.users.userId_mem ha)]
      rfl
  totalUnclaimed := hacc.totalUnclaimedRewards_eq hsettled
  totalUnclaimed_eq := by
    rw [hreg.sum_knownAddresses, Ledger.totalUnclaimed]
    refine Finset.sum_congr rfl fun v hv => ?_
    rw [Finset.mem_Icc] at hv
    rw [Ledger.claimable, hreg.userId_addressOf (by omega) hv.2, if_neg (by omega)]
  totalUnclaimed_le := hacc.totalUnclaimed_le hsettled

/-! ### Acts and ticks -/

/-- What is shown to a user and paid to it stays the same; the owner may be shown more. -/
structure Keeps (s s' : Ledger) (u paid : ℕ) : Prop where
  le : s.updatedUnclaimed u ≤ s'.updatedUnclaimed u + paid
  eq : u ≠ ownerUserId → s'.updatedUnclaimed u + paid = s.updatedUnclaimed u

theorem Keeps.trans {s'' : Ledger} {paid paid' : ℕ} (h : Keeps s s' u paid)
    (h' : Keeps s' s'' u paid') : Keeps s s'' u (paid + paid') where
  le := by
    have hle := h.le
    have hle' := h'.le
    omega
  eq hu := by
    have heq := h.eq hu
    have heq' := h'.eq hu
    omega

/-- The state is one in which the views show the formula. -/
structure Shown (s : Ledger) : Prop where
  accounted : s.Accounted
  settledSwaps : s.SettledSwaps

theorem Shown.accrued_eq (h : s.Shown) (hu : u ∈ Finset.Icc 1 s.numUsers) :
    s.accrued u = .ok (s.updatedUnclaimed u) :=
  h.accounted.accrued_eq h.settledSwaps hu

theorem Fair.keeps (h : Fair s s' u) (hs : s.Shown) (hs' : s'.Shown)
    (hu : u ∈ Finset.Icc 1 s.numUsers) (hu' : u ∈ Finset.Icc 1 s'.numUsers) : Keeps s s' u 0 := by
  obtain ⟨before, after, hbefore, hafter, hle, heq⟩ := h
  rw [hs.accrued_eq hu, Except.ok.injEq] at hbefore
  rw [hs'.accrued_eq hu', Except.ok.injEq] at hafter
  rw [← hbefore, ← hafter] at hle heq
  exact ⟨hle, heq⟩

theorem Neutral.keeps (h : Neutral s s' u) (hs : s.Shown) (hs' : s'.Shown)
    (hu : u ∈ Finset.Icc 1 s.numUsers) (hu' : u ∈ Finset.Icc 1 s'.numUsers) : Keeps s s' u 0 := by
  have hsame : s'.accrued u = s.accrued u := h.updated_eq
  rw [hs.accrued_eq hu, hs'.accrued_eq hu', Except.ok.injEq] at hsame
  exact ⟨hsame.ge, fun _ => hsame⟩

/-- A user who claims is paid what is shown, and then shown nothing. -/
theorem Claimed.keeps {claimed : ℕ} (h : s.Claimed env s' claimed) (hs : s.Shown) (hs' : s'.Shown)
    (hu : s.userId env.caller ∈ Finset.Icc 1 s.numUsers)
    (hu' : s.userId env.caller ∈ Finset.Icc 1 s'.numUsers) :
    Keeps s s' (s.userId env.caller) claimed := by
  obtain ⟨-, hbefore, hafter, -⟩ := h.accrued
  rw [hs.accrued_eq hu, Except.ok.injEq] at hbefore
  rw [hs'.accrued_eq hu', Except.ok.injEq] at hafter
  refine ⟨?_, fun _ => ?_⟩ <;> omega

/-- **An act keeps what is shown**, if it is not an arrival of rewards. -/
theorem Act.keeps (hs : s.Shown) (hs' : s'.Shown) (ha : s.Act e s') (he : e.cleansDust = false)
    (hreward : ∀ amount, e ≠ .reward amount) (hu : u ∈ Finset.Icc 1 s.numUsers) :
    Keeps s s' u (claimedBy s s' u e) := by
  have hc := hs.accounted.consistent
  have hne : u ≠ 0 := by
    rw [Finset.mem_Icc] at hu
    omega
  have hu' : u ∈ Finset.Icc 1 s'.numUsers := Finset.Icc_subset_Icc_right ha.numUsers_le hu
  have hneutral : Neutral s s' u → claimedBy s s' u e = 0 → Keeps s s' u (claimedBy s s' u e) :=
    fun h hnone => by
      rw [hnone]
      exact h.keeps hs hs' hu hu'
  cases ha with
  | answered | received | continued => exact hneutral (.inl ⟨rfl, rfl⟩) rfl
  | rewarded => exact absurd rfl (hreward _)
  | @kept env call s' hcall hk =>
    refine hneutral ?_ (by cases call <;> first | rfl | cases hcall)
    rw [hk.frame]
    exact .inl ⟨rfl, rfl⟩
  | @staked env s' hst =>
    have hcredit : Neutral s (s.credit env.payment) u := .inl ⟨rfl, rfl⟩
    exact hneutral (hcredit.trans (hst.neutral hc.sound hc.books.upToDate hne)) rfl
  | unStaked _ hun => exact hneutral (hun.neutral hc.books.upToDate hne) rfl
  | unBonded _ hun => exact hneutral (hun.neutral hne) rfl
  | @claimed env amount s' _ hcl =>
    by_cases hcaller : u = s.userId env.caller
    · have hpaid : claimedBy s s' u (.transaction env .claimRewards) = amount := by
        rw [hcaller]
        obtain ⟨-, -, -, -⟩ := hcl
        simp [claimedBy]
      rw [hpaid]
      rw [hcaller] at hu hu' ⊢
      exact hcl.keeps hs hs' hu hu'
    · exact hneutral (hcl.neutral hcaller) (if_neg (Ne.symm hcaller))
  | @operated env op s₀ orc _ hop _ hopened =>
    have hnone : claimedBy s (s₀.withOp orc) u (.transaction env op.call) = 0 := by
      cases op <;> rfl
    rw [hnone]
    exact ((hopened.fairToAll hs.accounted hop).fair u hu).keeps hs hs' hu hu'
  | waitingCleaned | activeCleaned => cases he

/-- More rewards do not make a share less. -/
theorem share_mono (s : Ledger) (u : ℕ) {n n' : ℕ} (h : n ≤ n') : s.share u n ≤ s.share u n' := by
  have hpart : s.delegatorsPart n ≤ s.delegatorsPart n' :=
    Nat.div_le_div_right (Nat.mul_le_mul_left _ h)
  refine Nat.add_le_add ?_ (Nat.div_le_div_right (Nat.mul_le_mul_right _ hpart))
  split_ifs
  · exact Nat.add_le_add (Nat.div_le_div_right (Nat.mul_le_mul_left _ h))
      (Nat.div_le_div_right (Nat.mul_le_mul_right _ hpart))
  · exact le_rfl

theorem updatedUnclaimed_le_arriveRewards (s : Ledger) (u amount : ℕ) :
    s.updatedUnclaimed u ≤ (s.arriveRewards amount).updatedUnclaimed u := by
  refine Nat.add_le_add_left ?_ _
  exact s.share_mono u (Nat.sub_le_sub_right (Nat.le_add_right _ _) _)

end Ledger

/-! ### Steps -/

theorem Reachable.shown {w : World} (h : Reachable QuietSwaps w) : w.contract.ledger.Shown :=
  ⟨h.settledSwaps.1, h.settledSwaps.2⟩

/-- What a step does to what is shown to one user. -/
structure Transition.Keeps (t : Transition) (u : ℕ) : Prop where
  le : t.before.contract.ledger.updatedUnclaimed u ≤
    t.after.contract.ledger.updatedUnclaimed u +
      Ledger.claimedBy t.before.contract.ledger t.after.contract.ledger u t.event
  eq : t.event.arrived = 0 → u ≠ ownerUserId →
    t.after.contract.ledger.updatedUnclaimed u +
      Ledger.claimedBy t.before.contract.ledger t.after.contract.ledger u t.event =
        t.before.contract.ledger.updatedUnclaimed u

/-- **A step keeps what is shown**, and rewards that arrive add to it. -/
theorem Step.keeps {w w' : World} {e : Event} {u : ℕ} (hw : Reachable QuietSwaps w)
    (he : QuietSwaps w e) (h : Step w e w')
    (hu : u ∈ Finset.Icc 1 w.contract.ledger.numUsers) : (⟨w, e, w'⟩ : Transition).Keeps u := by
  by_cases hreward : ∀ amount, e ≠ .reward amount
  · have hs := hw.shown
    have hs' := (hw.step he h).shown
    have hc := hs.accounted.consistent
    obtain ⟨s₁, ha, hticks, hend⟩ := h.acts_ticks hc.sound hc.dust (hc.userTotal_zero rfl)
    have hacc₁ := hs.accounted.act ha he.1
    have hsettled₁ := hs.settledSwaps.act ha he.1 he.2
    have hact := ha.keeps hs ⟨hacc₁, hsettled₁⟩ he.1 hreward hu
    cases hop : e.operates with
    | false =>
      obtain rfl : w'.contract.ledger = s₁ := hend hop
      exact ⟨hact.le, fun _ => hact.eq⟩
    | true =>
      -- no call that works on an operation pays rewards
      have hnone : ∀ s s' : Ledger, Ledger.claimedBy s s' u e = 0 := fun s s' => by
        unfold Ledger.claimedBy
        split
        · cases hop
        · rfl
      obtain ⟨-, hfair⟩ := hacc₁.fair_of_ticks hsettled₁ hticks
      have hu₁ : u ∈ Finset.Icc 1 s₁.numUsers := Finset.Icc_subset_Icc_right ha.numUsers_le hu
      have hchain := (hfair.fair u hu₁).keeps ⟨hacc₁, hsettled₁⟩ hs' hu₁ (by
        rw [hfair.numUsers]
        exact hu₁)
      rw [hnone] at hact
      have hkeeps := hact.trans hchain
      exact ⟨by rw [hnone]; exact hkeeps.le, fun _ hne => by rw [hnone]; exact hkeeps.eq hne⟩
  · push Not at hreward
    obtain ⟨amount, rfl⟩ := hreward
    cases h with
    | reward =>
      refine ⟨Ledger.updatedUnclaimed_le_arriveRewards _ u amount, fun hnone _ => ?_⟩
      obtain rfl : amount = 0 := hnone
      rfl

/-- A step shows no less in total, and what it pays was shown. -/
theorem Step.totalUnclaimed_le {w w' : World} {e : Event} (hw : Reachable QuietSwaps w)
    (he : QuietSwaps w e) (h : Step w e w') :
    w.contract.ledger.totalUnclaimed + w.contract.ledger.sentRewards ≤
      w'.contract.ledger.totalUnclaimed + w'.contract.ledger.sentRewards := by
  obtain ⟨hle, hsent⟩ := h.sentRewards hw.shown.accounted.consistent le_rfl
  have hsum := Finset.sum_le_sum fun u hu => (h.keeps hw he hu).le
  rw [Finset.sum_add_distrib] at hsum
  have hsub : Finset.Icc 1 w.contract.ledger.numUsers ⊆ Finset.Icc 1 w'.contract.ledger.numUsers :=
    Finset.Icc_subset_Icc_right hle
  have hshown := Finset.sum_le_sum_of_subset hsub (f := w'.contract.ledger.updatedUnclaimed)
  have hpaid := Finset.sum_le_sum_of_subset hsub
    (f := fun u => Ledger.claimedBy w.contract.ledger w'.contract.ledger u e)
  simp only [Ledger.totalUnclaimed] at hsum ⊢
  omega

/-! ### Runs -/

/-- Over a run, users keep their ids and addresses. -/
theorem Run.registryExtends {allowed : World → Event → Prop} {w w' : World}
    {trace : List Transition} (h : Run allowed w trace w') (hw : Reachable allowed w) :
    Ledger.RegistryExtends w.contract.ledger w'.contract.ledger := by
  induction h with
  | start => exact .refl _
  | step hrun _ hs ih =>
    have hreach := hrun.reachable_of_reachable hw
    obtain ⟨egld, hcall⟩ := hs.registryCall hreach.consistent
    have hext := (hcall.userRegistry (hreach.registered.registry.congr rfl)).2
    exact ih.trans ⟨hext.ids, hext.addresses⟩

/-- **A run keeps what is shown to a user.** -/
theorem Run.keeps {w w' : World} {trace : List Transition} {u : ℕ}
    (h : Run QuietSwaps w trace w') (hw : Reachable QuietSwaps w)
    (hu : u ∈ Finset.Icc 1 w.contract.ledger.numUsers) :
    w.contract.ledger.updatedUnclaimed u ≤
        w'.contract.ledger.updatedUnclaimed u + Trace.claimed trace u ∧
      ((∀ t ∈ trace, t.event.arrived = 0) → u ≠ ownerUserId →
        w'.contract.ledger.updatedUnclaimed u + Trace.claimed trace u =
          w.contract.ledger.updatedUnclaimed u) := by
  induction h with
  | start => simp [Trace.claimed]
  | @step trace w₁ w₂ e hrun he hs ih =>
    have hu₁ : u ∈ Finset.Icc 1 w₁.contract.ledger.numUsers :=
      Finset.Icc_subset_Icc_right (hrun.registryExtends hw).ids.last_le hu
    obtain ⟨hle, heq⟩ := hs.keeps (hrun.reachable_of_reachable hw) he hu₁
    simp only at hle heq
    rw [Trace.claimed_concat]
    refine ⟨?_, fun hnone hne => ?_⟩
    · have := ih.1
      simp only
      omega
    · have hlast := heq (hnone _ (List.mem_append_right _ List.mem_cons_self)) hne
      have hbefore := ih.2 (fun t ht => hnone t (List.mem_append_left _ ht)) hne
      simp only
      omega

theorem Run.totalUnclaimed_le {w w' : World} {trace : List Transition}
    (h : Run QuietSwaps w trace w') (hw : Reachable QuietSwaps w) :
    w.contract.ledger.totalUnclaimed + w.contract.ledger.sentRewards ≤
      w'.contract.ledger.totalUnclaimed + w'.contract.ledger.sentRewards := by
  induction h with
  | start => exact le_rfl
  | step hrun he hs ih =>
    exact ih.trans (hs.totalUnclaimed_le (hrun.reachable_of_reachable hw) he)

/-- **What the reward views show is not lost.** In every reachable state of a run in which no
rewards arrive while funds are swapped, the views show the same rewards, all of which have arrived
and have not been sent. From any such state on, what an address is shown and what `claimRewards` has
sent to it never becomes less than what it was shown, and as long as nothing arrives it stays the
same, for all but the owner. The total and what was sent do not become less either. -/
theorem claimable_of_run {w w' : World} {trace : List Transition} (hw : Reachable QuietSwaps w)
    (h : Run QuietSwaps w trace w') :
    w.contract.ledger.ShowsRewards ∧ w'.contract.ledger.ShowsRewards ∧
    (∀ a, w.contract.ledger.claimable a ≤ w'.contract.ledger.claimable a +
      Trace.claimed trace (w.contract.ledger.userId a)) ∧
    ((∀ t ∈ trace, t.event.arrived = 0) → ∀ a ∈ w.contract.ledger.knownAddresses,
      w.contract.ledger.userId a ≠ ownerUserId →
      w'.contract.ledger.claimable a + Trace.claimed trace (w.contract.ledger.userId a) =
        w.contract.ledger.claimable a) ∧
    w.contract.ledger.totalUnclaimed + w.contract.ledger.sentRewards ≤
      w'.contract.ledger.totalUnclaimed + w'.contract.ledger.sentRewards := by
  have hw' := h.reachable_of_reachable hw
  have hshown : ∀ {w : World}, Reachable QuietSwaps w → w.contract.ledger.ShowsRewards := fun hr =>
    hr.shown.accounted.showsRewards hr.shown.settledSwaps hr.registered
  have hknown := hw.shown.accounted.consistent.users
  have hkept : ∀ a, w.contract.ledger.userId a ≠ 0 →
      w.contract.ledger.claimable a =
          w.contract.ledger.updatedUnclaimed (w.contract.ledger.userId a) ∧
        w'.contract.ledger.claimable a =
          w'.contract.ledger.updatedUnclaimed (w.contract.ledger.userId a) := fun a ha => by
    have hid := (h.registryExtends hw).ids.kept a ha
    exact ⟨if_neg ha, by rw [Ledger.claimable, hid, if_neg ha]⟩
  refine ⟨hshown hw, hshown hw', fun a => ?_, fun hnone a ha hne => ?_, h.totalUnclaimed_le hw⟩
  · by_cases ha : w.contract.ledger.userId a = 0
    · rw [Ledger.claimable, if_pos ha]
      exact Nat.zero_le _
    · obtain ⟨hbefore, hafter⟩ := hkept a ha
      rw [hbefore, hafter]
      exact (h.keeps hw (hknown.userId_mem ha)).1
  · rw [hw.registered.mem_knownAddresses hknown] at ha
    obtain ⟨hbefore, hafter⟩ := hkept a ha
    rw [hbefore, hafter]
    exact (h.keeps hw (hknown.userId_mem ha)).2 hnone hne

/-- A delegator is shown 362, the cap is cut in two transactions, and the delegator is paid 362. -/
theorem claimable_of_run_cut :
    ∃ (w w' : World) (trace : List Transition), Reachable QuietSwaps w ∧
      Run QuietSwaps w trace w' ∧ w.contract.ledger.claimable 7 = 362 ∧
      w'.contract.ledger.totalDelegationCap = 80 ∧ w'.contract.ledger.claimable 7 = 0 ∧
      w'.contract.ledger.claimable 7 + Trace.claimed trace 2 = w.contract.ledger.claimable 7 := by
  let events : List Event :=
    [.transaction { Env.plain 1 0 9 with payment := 60 } .stake,
      .transaction { Env.plain 7 0 9 with payment := 40 } .stake, .reward 1007]
  let later : List Event :=
    [.transaction { Env.plain 1 2 9 with gasLow := fun i k => decide (i = 3 ∧ k = 1) }
        (.modifyTotalDelegationCap 80),
      .transaction (.plain 8 3 9) .continueGlobalOperation,
      .transaction (.plain 7 4 9) .claimRewards]
  have hrun : ((World.deploy 1 0 2 1000 0 9 1 100).bind fun w₀ => (w₀.record events).bind fun r =>
      (r.2.record later).map fun r' =>
        (r.1.all fun t => !t.event.cleansDust &&
            !t.before.contract.ledger.globalOpCheckpoint.swapping,
          r'.1.all fun t => !t.event.cleansDust && decide (t.event.arrived = 0),
          decide ((7 : Address) ∈ r.2.contract.ledger.knownAddresses),
          [r.2.contract.ledger.userId 7, r.2.contract.ledger.claimable 7,
            r'.2.contract.ledger.totalDelegationCap, r'.2.contract.ledger.claimable 7])) =
      some (true, true, true, [2, 362, 80, 0]) := by
    decide +kernel
  obtain ⟨w₀, hw₀, hrun⟩ := Option.bind_eq_some_iff.mp hrun
  obtain ⟨⟨past, w⟩, hpast, hrun⟩ := Option.bind_eq_some_iff.mp hrun
  obtain ⟨⟨trace, w'⟩, htrace, hobs⟩ := Option.map_eq_some_iff.mp hrun
  simp only [Prod.mk.injEq, List.all_eq_true, Bool.and_eq_true, Bool.not_eq_true',
    decide_eq_true_eq, List.cons.injEq, and_true] at hobs
  obtain ⟨hquiet, hnone, hknown, hid, hbefore, hcap, hafter⟩ := hobs
  have hw : Reachable QuietSwaps w := (World.run_record hpast fun t ht =>
    ⟨(hquiet t ht).1, fun _ _ _ => (hquiet t ht).2⟩).reachable (World.initial_deploy hw₀)
  have hlater : Run QuietSwaps w trace w' := World.run_record htrace fun t ht =>
    ⟨(hnone t ht).1, fun amount heq hpos => by
      have := (hnone t ht).2
      rw [heq] at this
      exact absurd this hpos.ne'⟩
  have hkeeps := (claimable_of_run hw hlater).2.2.2.1 (fun t ht => (hnone t ht).2) 7 hknown
    (by rw [hid]; decide)
  rw [hid] at hkeeps
  exact ⟨w, w', trace, hw, hlater, hbefore, hcap, hafter, hkeeps⟩

end Delegation
