import Delegation.Latest.Egld
import Delegation.Latest.Fairness

/-!
# Every reward is distributed pro rata

The ideal distribution gives every user, whenever rewards arrive, the exact part of them that the
user's rate says (`Transition.entitled`). The contract keeps no such account: it computes rewards
lazily, rounds each computation down, pays when asked to, and changes stakes, cap and fee in
between. All the same it follows the ideal (`proRata_of_run`): over every run in which no rewards
arrive while funds are swapped, what a user was paid together with what it has accrued is its exact
part of all that ever arrived, but for at most `roundingLoss` for each time that the user was
booked. What the rounding takes goes to the owner, and nothing else does.

`Rounded` is what a change of the ledger does to one user, and it composes, since within one step a
user is booked at most once.
-/

namespace Delegation

open Outcome FundStore Relation

/-- The rewards that arrive in an event. -/
def Event.arrived : Event → ℕ
  | .reward amount => amount
  | _ => 0

theorem Event.arrived_eq_zero {e : Event} (h : ∀ amount, e ≠ .reward amount) : e.arrived = 0 := by
  cases e with
  | reward amount => exact absurd rfl (h amount)
  | _ => rfl

namespace Ledger

variable {s s' s'' : Ledger} {env : Env} {e : Event} {nonce : UInt64} {u paid paid' : ℕ}

/-! ### What a change does to one user -/

/-- Whether the rewards of a user were computed and found something new. -/
def bookings (s s' : Ledger) (u : ℕ) : ℕ :=
  if s'.userRewCheckpoint u = s.userRewCheckpoint u then 0 else 1

/-- At the same cumulated rewards, what the user is worth and is paid falls by the rounding only;
nobody but the owner gains. -/
structure Rounded (s s' : Ledger) (u paid : ℕ) : Prop where
  cumulatedRewards : s'.cumulatedRewards = s.cumulatedRewards
  checkpoint : s'.userRewCheckpoint u = s.userRewCheckpoint u ∨
    s'.userRewCheckpoint u = s.cumulatedRewards
  le_worth : s.worth u ≤ s'.worth u + paid + roundingLoss u * bookings s s' u
  worth_le : u ≠ ownerUserId → s'.worth u + paid ≤ s.worth u

/-- A user is booked once, however often its rewards are computed. -/
theorem Rounded.bookings_add (h : Rounded s s' u paid) (h' : Rounded s' s'' u paid') :
    bookings s s' u + bookings s' s'' u = bookings s s'' u := by
  by_cases hmoved : s'.userRewCheckpoint u = s.userRewCheckpoint u
  · simp only [bookings, hmoved, if_true, zero_add]
  · -- the checkpoint is at the cumulated rewards, where it stays
    have hcp := h.checkpoint.resolve_left hmoved
    have hstays : s''.userRewCheckpoint u = s'.userRewCheckpoint u :=
      h'.checkpoint.elim id fun heq => by rw [heq, h.cumulatedRewards, hcp]
    simp only [bookings, hstays, if_true, add_zero]

theorem Rounded.trans (h : Rounded s s' u paid) (h' : Rounded s' s'' u paid') :
    Rounded s s'' u (paid + paid') where
  cumulatedRewards := h'.cumulatedRewards.trans h.cumulatedRewards
  checkpoint := by
    rcases h'.checkpoint with heq | heq
    · exact h.checkpoint.imp heq.trans heq.trans
    · exact .inr (heq.trans h.cumulatedRewards)
  le_worth := by
    have hle := h.le_worth
    have hle' := h'.le_worth
    rw [← h.bookings_add h']
    push_cast
    linarith
  worth_le hu := by
    have hle := h.worth_le hu
    have hle' := h'.worth_le hu
    push_cast
    linarith

/-- What does not concern the user. -/
theorem rounded_of_eq (hdata : s'.loadUserRewardData u = s.loadUserRewardData u)
    (hterms : s'.rewardTerms u = s.rewardTerms u) : Rounded s s' u 0 := by
  have hcum : s'.cumulatedRewards = s.cumulatedRewards :=
    congrArg RewardTerms.cumulatedRewards hterms
  have hcp : s'.userRewCheckpoint u = s.userRewCheckpoint u :=
    congrArg UserRewardData.rewardCheckpoint hdata
  have hunc : s'.userRewUnclaimed u = s.userRewUnclaimed u :=
    congrArg UserRewardData.unclaimedRewards hdata
  have hworth : s'.worth u = s.worth u := by
    simp only [worth, Accrual.value, hcum, hcp, hunc, rewardRate_congr hterms]
  exact ⟨hcum, .inl hcp, by simp [hworth, bookings, hcp], fun _ => by simp [hworth]⟩

theorem Rounded.refl (s : Ledger) (u : ℕ) : Rounded s s u 0 := rounded_of_eq rfl rfl

/-- The user is up to date, and keeps what is stored for it; the owner may be given more. -/
theorem rounded_of_upToDate (hdate : s.userRewCheckpoint u = s.cumulatedRewards)
    (hcp : s'.userRewCheckpoint u = s.userRewCheckpoint u)
    (hcum : s'.cumulatedRewards = s.cumulatedRewards)
    (hle : s.userRewUnclaimed u ≤ s'.userRewUnclaimed u)
    (heq : u ≠ ownerUserId → s'.userRewUnclaimed u = s.userRewUnclaimed u) :
    Rounded s s' u 0 := by
  have hworth : s.worth u = s.userRewUnclaimed u := Accrual.value_of_upToDate hdate
  have hworth' : s'.worth u = s'.userRewUnclaimed u :=
    Accrual.value_of_upToDate (by rw [hcp, hcum, hdate])
  refine ⟨hcum, .inl hcp, ?_, fun hu => ?_⟩
  · rw [hworth, hworth', bookings, if_pos hcp]
    push_cast
    have hle' : (s.userRewUnclaimed u : ℚ) ≤ s'.userRewUnclaimed u := Nat.cast_le.mpr hle
    linarith
  · rw [hworth, hworth', heq hu]
    simp

theorem Steady.share_roundsDown (h : s.Steady) (u : ℕ) :
    Accrual.RoundsDown (s.share u) (s.rewardRate u) (roundingLoss u) := by
  refine Ledger.share_roundsDown h.active_le ?_
  rcases eq_or_ne u 0 with rfl | hu
  · exact le_rfl
  · rw [userStakeOfType_of_ne hu]
    exact h.sound.userTotal_le u .active

/-- What is neutral for a user books it at most once. -/
theorem Neutral.rounded (h : Neutral s s' u) (hs : s.Steady) : Rounded s s' u 0 := by
  rcases h with ⟨hdata, hterms⟩ | ⟨hcum, hload⟩
  · exact rounded_of_eq hdata hterms
  · have hneutral : Neutral s s' u := .inr ⟨hcum, hload⟩
    rw [(hs.computable u).loadUpdatedUserRewards_eq, Except.ok.injEq] at hload
    have hcp : s.cumulatedRewards = s'.userRewCheckpoint u :=
      congrArg UserRewardData.rewardCheckpoint hload
    have hunc : s.updatedUnclaimed u = s'.userRewUnclaimed u :=
      congrArg UserRewardData.unclaimedRewards hload
    have hworth' : s'.worth u = s.updatedUnclaimed u := by
      rw [hunc]
      exact Accrual.value_of_upToDate (by rw [← hcp, hcum])
    refine ⟨hcum, .inr hcp.symm, ?_, fun _ => ?_⟩
    · rw [hworth', bookings, ← hcp]
      split_ifs with hsame
      · -- nothing new was found
        have hzero : s.worth u = s.userRewUnclaimed u := Accrual.value_of_upToDate hsame.symm
        rw [hzero, updatedUnclaimed]
        have hpending : (0 : ℚ) ≤ s.pending u := Nat.cast_nonneg _
        push_cast
        linarith
      · have hle : s.worth u ≤ (s.updatedUnclaimed u : ℕ) + (roundingLoss u : ℕ) :=
          (hs.share_roundsDown u).value_le (hs.checkpoint_le u)
        push_cast
        linarith
    · simpa using hneutral.worth_le (hs.computable u)

/-- A user who claims is paid all that is stored once the rewards are computed. -/
theorem Claimed.rounded {claimed : ℕ} (h : s.Claimed env s' claimed) (hs : s.Steady) :
    Rounded s s' (s.userId env.caller) claimed := by
  obtain ⟨-, -, hload, -⟩ := h
  have hmid := ((settled_storeUserRewardData hload).neutral (s.userId env.caller)).rounded hs
  obtain ⟨hcum, hcp, hle, hge⟩ := hmid
  have hworth : (s.storeUserRewardData (s.userId env.caller) ⟨s.cumulatedRewards, claimed⟩).worth
      (s.userId env.caller) = claimed := by
    rw [worth, Accrual.value_of_upToDate (by simp)]
    simp
  rw [hworth] at hle hge
  have hworth' : ({ s with
      balance := s.balance - claimed
      paidOut := Function.update s.paidOut env.caller (s.paidOut env.caller + claimed)
      sentRewards := s.sentRewards + claimed }.storeUserRewardData (s.userId env.caller)
        ⟨s.cumulatedRewards, 0⟩).worth (s.userId env.caller) = 0 := by
    rw [worth, Accrual.value_of_upToDate (by simp)]
    simp
  refine ⟨rfl, .inr (by simp), ?_, fun hu => ?_⟩
  · rw [hworth']
    simpa [bookings, add_comm] using hle
  · rw [hworth']
    simpa using hge hu

/-- Strangers are worth nothing. -/
theorem Consistent.worth_of_stranger (h : s.Consistent) (hu : s.numUsers < u) : s.worth u = 0 := by
  have hpos := h.users.numUsers_pos
  have howner : u ≠ ownerUserId := by
    simp only [ownerUserId]
    omega
  have hactive : s.userStakeOfType u .active = 0 := by
    rw [userStakeOfType_of_ne (by omega)]
    exact h.users.userTotal_eq_zero h.sound (.inr hu) rfl
  simp [worth, Accrual.value, h.books.unclaimed u hu, rewardRate, if_neg howner, hactive]

/-! ### Acts and ticks -/

/-- What a call of `claimRewards` sends to a user. -/
def claimedBy (s s' : Ledger) (u : ℕ) : Event → ℕ
  | .transaction env .claimRewards =>
      if s.userId env.caller = u then s'.paidOut env.caller - s.paidOut env.caller else 0
  | _ => 0

/-- The exact part of a user in what arrives. -/
def entitled (s : Ledger) (u : ℕ) (e : Event) : ℚ := e.arrived * s.rewardRate u

theorem Opened.rounded {op : Operation} {s₀ : Ledger} {orc : GlobalOpCheckpoint}
    (ho : s.Opened op s₀ orc) (hboot : s.UpToDateInBootstrap) (u : ℕ) :
    Rounded s (s₀.withOp orc) u 0 := by
  cases ho with
  | capStored hb | bootstrapEnded hb | feeStored _ hb =>
    exact rounded_of_upToDate (hboot hb u) rfl rfl le_rfl fun _ => rfl
  | capKept | feeKept | feeChange | capChange => exact rounded_of_eq rfl rfl

/-- **An act changes what a user is worth by the rounding**, if it is not an arrival of rewards. -/
theorem Act.rounded (hacc : s.Accounted) (ha : s.Act e s') (he : e.cleansDust = false)
    (hreward : ∀ amount, e ≠ .reward amount) (hu : u ≠ 0) :
    Rounded s s' u (claimedBy s s' u e) := by
  have hc := hacc.consistent
  have hidle : s.globalOpCheckpoint = .none → s.Steady := fun hop =>
    hacc.steady (by rw [hop]; rfl)
  cases ha with
  | answered | received | continued => exact rounded_of_eq rfl rfl
  | rewarded => exact absurd rfl (hreward _)
  | @kept env call s' hcall hk =>
    have hnone : claimedBy s s' u (.transaction env call) = 0 := by
      cases call <;> first | rfl | cases hcall
    rw [hnone, hk.frame]
    exact rounded_of_eq rfl rfl
  | @staked env s' hst =>
    have hcredit : Neutral s (s.credit env.payment) u := .inl ⟨rfl, rfl⟩
    have hneutral : Neutral s s' u := hcredit.trans (hst.neutral hc.sound hc.books.upToDate hu)
    obtain ⟨hop, -⟩ := hst
    exact hneutral.rounded (hidle hop)
  | unStaked _ hun => exact (hun.neutral hc.books.upToDate hu).rounded (hidle hun.books.1)
  | unBonded _ hun =>
    have hterms := hun.rewardTerms_eq hu
    obtain ⟨-, -, -, -, -, -⟩ := hun
    exact rounded_of_eq rfl hterms
  | @claimed env amount s' _ hcl =>
    have hop : s.globalOpCheckpoint = .none := by obtain ⟨hop, -⟩ := hcl; exact hop
    have hpaid :
        claimedBy s s' (s.userId env.caller) (.transaction env .claimRewards) = amount := by
      obtain ⟨-, -, -, -⟩ := hcl
      simp [claimedBy]
    by_cases hcaller : u = s.userId env.caller
    · rw [hcaller, hpaid]
      exact hcl.rounded (hidle hop)
    · rw [claimedBy, if_neg (Ne.symm hcaller)]
      exact (hcl.neutral hcaller).rounded (hidle hop)
  | @operated env op s₀ orc _ _ _ hopened =>
    have hnone : claimedBy s (s₀.withOp orc) u (.transaction env op.call) = 0 := by
      cases op <;> rfl
    rw [hnone]
    exact hopened.rounded hc.books.upToDate u
  | waitingCleaned | activeCleaned => cases he

/-- **A tick changes what a user is worth by the rounding**, if nothing has arrived since the
rewards were computed. -/
theorem Ticked.rounded (hacc : s.Accounted) (hsettled : s.SettledSwaps) (ht : Ticked nonce s s')
    (hu : u ≠ 0) : Rounded s s' u 0 := by
  have hc := hacc.consistent
  by_cases hstranger : s.numUsers < u
  · -- a stranger is worth nothing before and after
    have hcp : s'.userRewCheckpoint u = s.userRewCheckpoint u ∨
        s'.userRewCheckpoint u = s.cumulatedRewards := by
      cases ht with
      | settled _ _ _ hload =>
        exact (settled_storeUserRewardData hload).checkpoint_cases u
      | _ => exact .inl rfl
    have hworth := hc.worth_of_stranger hstranger
    have hworth' := (hc.ticked ht).worth_of_stranger (ht.frame_eq.1 ▸ hstranger)
    refine ⟨ht.frame_eq.2, hcp, ?_, fun _ => by simp [hworth, hworth']⟩
    rw [hworth, hworth']
    positivity
  have hmem : u ∈ Finset.Icc 1 s.numUsers := Finset.mem_Icc.mpr ⟨by omega, by omega⟩
  -- the remainder is for the owner
  have hremainder : ∀ remainder,
      s.userRewUnclaimed u ≤ (s.withRemainder remainder).userRewUnclaimed u ∧ (u ≠ ownerUserId →
        (s.withRemainder remainder).userRewUnclaimed u = s.userRewUnclaimed u) := by
    intro remainder
    rw [withRemainder_userRewUnclaimed]
    rcases eq_or_ne u ownerUserId with rfl | howner
    · simp
    · simp [howner]
  cases ht with
  | restarted => exact rounded_of_eq rfl rfl
  | settled hop _ _ hload =>
    have hs := hacc.steady (GlobalOpCheckpoint.swapping_of_computing hop)
    exact (((settled_storeUserRewardData hload).neutral u).withOp _).rounded hs
  | @feeChanged _ remainder _ hop hcp hle =>
    have hdate := (hc.books.computing _ (by rw [hop]; rfl)).upToDate hcp hle
    obtain ⟨hunc, hunc'⟩ := hremainder remainder
    exact rounded_of_upToDate (hdate u hmem) rfl rfl hunc hunc'
  | @rewardsComputed remainder _ _ hop hstep hcp hle =>
    have hdate := (hc.books.computing _ (by
      rw [hop]; exact GlobalOpCheckpoint.computing_of_step hstep)).upToDate hcp hle
    obtain ⟨hunc, hunc'⟩ := hremainder remainder
    exact rounded_of_upToDate (hdate u hmem) rfl rfl hunc hunc'
  | activated hop hstep | allActivated hop hstep | unstakedDeferred hop hstep
  | allUnstakedDeferred hop hstep | activeDeferred hop hstep | capChanged hop hstep =>
    have hdate := hsettled (by simp [hop, GlobalOpCheckpoint.swapping, hstep])
    exact rounded_of_upToDate (hdate u hmem) rfl rfl le_rfl fun _ => rfl

theorem Accounted.rounded_of_ticks (hacc : s.Accounted) (hsettled : s.SettledSwaps)
    (ht : ReflTransGen (Ticked nonce) s s') (hu : u ≠ 0) :
    s'.SettledSwaps ∧ Rounded s s' u 0 := by
  induction ht with
  | refl => exact ⟨hsettled, .refl s u⟩
  | tail hticks hlast ih =>
    obtain ⟨hsettled', hrounded⟩ := ih
    have hacc' := hacc.ticks hticks
    exact ⟨hsettled'.ticked hacc'.consistent.books hlast,
      hrounded.trans (hlast.rounded hacc' hsettled' hu)⟩

end Ledger

/-! ### Steps -/

/-- What a step does to what a user is worth. -/
structure Transition.Rounded (t : Transition) (u : ℕ) : Prop where
  cumulatedRewards : t.after.contract.ledger.cumulatedRewards =
    t.before.contract.ledger.cumulatedRewards + t.event.arrived
  le_worth : t.before.contract.ledger.worth u + t.before.contract.ledger.entitled u t.event ≤
    t.after.contract.ledger.worth u +
      Ledger.claimedBy t.before.contract.ledger t.after.contract.ledger u t.event +
      Ledger.roundingLoss u * Ledger.bookings t.before.contract.ledger t.after.contract.ledger u
  worth_le : u ≠ ownerUserId → t.after.contract.ledger.worth u +
    Ledger.claimedBy t.before.contract.ledger t.after.contract.ledger u t.event ≤
      t.before.contract.ledger.worth u + t.before.contract.ledger.entitled u t.event

theorem Ledger.Rounded.transition {t : Transition} {u : ℕ}
    (h : t.before.contract.ledger.Rounded t.after.contract.ledger u
      (Ledger.claimedBy t.before.contract.ledger t.after.contract.ledger u t.event))
    (harrived : t.event.arrived = 0) : t.Rounded u := by
  have hnone : t.before.contract.ledger.entitled u t.event = 0 := by
    simp [Ledger.entitled, harrived]
  refine ⟨by rw [harrived]; exact h.cumulatedRewards, ?_, fun hu => ?_⟩
  · rw [hnone, add_zero]
    exact h.le_worth
  · rw [hnone, add_zero]
    exact h.worth_le hu

/-- **Every step follows the ideal but for the rounding.** -/
theorem Step.rounded {w w' : World} {e : Event} {u : ℕ} (hacc : w.contract.ledger.Accounted)
    (hsettled : w.contract.ledger.SettledSwaps) (he : QuietSwaps w e) (h : Step w e w')
    (hu : u ≠ 0) : (⟨w, e, w'⟩ : Transition).Rounded u := by
  by_cases hreward : ∀ amount, e ≠ .reward amount
  · refine Ledger.Rounded.transition ?_ (Event.arrived_eq_zero hreward)
    have hc := hacc.consistent
    obtain ⟨s₁, ha, hticks, hend⟩ := h.acts_ticks hc.sound hc.dust (hc.userTotal_zero rfl)
    have hact := ha.rounded hacc he.1 hreward hu
    cases hop : e.operates with
    | false =>
      have heq := hend hop
      simp only
      rw [heq]
      exact hact
    | true =>
      -- no call that works on an operation pays rewards
      have hnone : ∀ s s' : Ledger, Ledger.claimedBy s s' u e = 0 := fun s s' => by
        unfold Ledger.claimedBy
        split
        · cases hop
        · rfl
      have hchain := ((hacc.act ha he.1).rounded_of_ticks
        (hsettled.act ha he.1 fun amount heq _ => absurd heq (hreward amount)) hticks hu).2
      simp only [hnone] at hact ⊢
      exact hact.trans hchain
  · push Not at hreward
    obtain ⟨amount, rfl⟩ := hreward
    cases h with
    | reward =>
      have hworth : (w.contract.arriveRewards amount).ledger.worth u =
          w.contract.ledger.worth u + amount * w.contract.ledger.rewardRate u :=
        Accrual.value_add amount
      refine ⟨rfl, ?_, fun _ => ?_⟩ <;>
        simp [hworth, Ledger.entitled, Event.arrived, Ledger.claimedBy, Ledger.bookings]

/-! ### Runs -/

namespace Trace

/-- The exact part of a user in everything that has arrived. -/
def entitled (trace : List Transition) (u : ℕ) : ℚ :=
  (trace.map fun t => t.before.contract.ledger.entitled u t.event).sum

/-- What `claimRewards` has sent to a user. -/
def claimed (trace : List Transition) (u : ℕ) : ℕ :=
  (trace.map fun t =>
    Ledger.claimedBy t.before.contract.ledger t.after.contract.ledger u t.event).sum

/-- The number of steps that booked a user. -/
def bookings (trace : List Transition) (u : ℕ) : ℕ :=
  (trace.map fun t => Ledger.bookings t.before.contract.ledger t.after.contract.ledger u).sum

variable {trace : List Transition} {t : Transition} {u : ℕ}

theorem entitled_concat : entitled (trace ++ [t]) u =
    entitled trace u + t.before.contract.ledger.entitled u t.event := by
  simp [entitled]

theorem claimed_concat : claimed (trace ++ [t]) u = claimed trace u +
    Ledger.claimedBy t.before.contract.ledger t.after.contract.ledger u t.event := by
  simp [claimed]

theorem bookings_concat : bookings (trace ++ [t]) u = bookings trace u +
    Ledger.bookings t.before.contract.ledger t.after.contract.ledger u := by
  simp [bookings]

end Trace

theorem Initial.worth {w : World} (h : Initial w) (u : ℕ) : w.contract.ledger.worth u = 0 := by
  cases h with
  | init h =>
    obtain ⟨_, -, h⟩ := bind_eq_ok.mp h
    obtain ⟨_, -, h⟩ := bind_eq_ok.mp h
    cases h
    simp [Ledger.worth, Accrual.value]

/-- **Every run follows the ideal but for the rounding.** -/
theorem Run.rounded {w₀ w : World} {trace : List Transition} (h : Run QuietSwaps w₀ trace w)
    (h₀ : Initial w₀) {u : ℕ} (hu : u ≠ 0) :
    Trace.entitled trace u ≤ w.contract.ledger.worth u + Trace.claimed trace u +
        Ledger.roundingLoss u * Trace.bookings trace u ∧
      (u ≠ ownerUserId →
        w.contract.ledger.worth u + Trace.claimed trace u ≤ Trace.entitled trace u) := by
  induction h with
  | start => simp [Trace.entitled, Trace.claimed, Trace.bookings, h₀.worth]
  | step hrun he hs ih =>
    obtain ⟨hacc, hsettled⟩ := (hrun.reachable h₀).settledSwaps
    obtain ⟨-, hle, hge⟩ := hs.rounded hacc hsettled he hu
    rw [Trace.entitled_concat, Trace.claimed_concat, Trace.bookings_concat]
    refine ⟨?_, fun howner => ?_⟩
    · push_cast
      linarith [ih.1]
    · have hge := hge howner
      have ih := ih.2 howner
      push_cast
      linarith

/-! ### All users together -/

namespace Ledger

variable {s s' : Ledger} {e : Event} {nonce : UInt64} {u N : ℕ}

/-- Strangers have no rate, so it does not matter whether they are counted. -/
theorem Consistent.sum_rewardRate (h : s.Consistent) (hN : s.numUsers ≤ N) :
    ∑ u ∈ Finset.Icc 1 N, s.rewardRate u = ∑ u ∈ Finset.Icc 1 s.numUsers, s.rewardRate u := by
  refine (Finset.sum_subset (Finset.Icc_subset_Icc_right hN) fun u hu hnot => ?_).symm
  rw [Finset.mem_Icc] at hu hnot
  have hpos := h.users.numUsers_pos
  have howner : u ≠ ownerUserId := by
    simp only [ownerUserId]
    omega
  have hactive : s.userStakeOfType u .active = 0 := by
    rw [userStakeOfType_of_ne (by omega)]
    exact h.users.userTotal_eq_zero h.sound (.inr (by omega)) rfl
  simp [rewardRate, if_neg howner, hactive]

/-- What an act claims is counted as sent. -/
theorem Act.sentRewards (hc : s.Consistent) (ha : s.Act e s') (hN : s.numUsers ≤ N) :
    s'.sentRewards = s.sentRewards + ∑ u ∈ Finset.Icc 1 N, claimedBy s s' u e := by
  have hnone (hsent : s'.sentRewards = s.sentRewards) (hzero : ∀ u, claimedBy s s' u e = 0) :
      s'.sentRewards = s.sentRewards + ∑ u ∈ Finset.Icc 1 N, claimedBy s s' u e := by
    rw [hsent, Finset.sum_eq_zero fun u _ => hzero u, add_zero]
  cases ha with
  | answered | received | continued | rewarded => exact hnone rfl fun _ => rfl
  | @kept env call _ hcall hk =>
    refine hnone ?_ fun u => ?_
    · rw [hk.frame]
      rfl
    · cases call <;> first | rfl | cases hcall
  | staked hst =>
    refine hnone ?_ fun _ => rfl
    obtain ⟨-, hdep, -, hre⟩ := hst
    rw [hre.frame, hdep.frame]
    rfl
  | unStaked _ hun => exact hnone hun.books.2.2 fun _ => rfl
  | unBonded _ hun =>
    obtain ⟨-, -, -, -, -, -⟩ := hun
    exact hnone rfl fun _ => rfl
  | @claimed env amount s' _ hcl =>
    obtain ⟨-, hid, -, -⟩ := hcl
    have hle := hc.users.userId_le env.caller
    simp only [claimedBy, storeUserRewardData_paidOut, Function.update_self,
      Nat.add_sub_cancel_left, storeUserRewardData_sentRewards]
    rw [Finset.sum_ite_eq, if_pos (Finset.mem_Icc.mpr ⟨by omega, by omega⟩)]
  | @operated env op s₀ orc _ _ _ hopened =>
    refine hnone ?_ fun u => by cases op <;> rfl
    cases hopened <;> rfl
  | waitingCleaned _ h =>
    refine hnone ?_ fun _ => rfl
    cases h <;> rfl
  | activeCleaned _ h =>
    refine hnone ?_ fun _ => rfl
    obtain ⟨-, -, hset, hsw, hre⟩ := h
    rw [hre.frame, hsw.frame, hset.frame]

end Ledger

/-- What a step claims is counted as sent, whatever else it does. -/
theorem Step.sentRewards {w w' : World} {e : Event} {N : ℕ}
    (hc : w.contract.ledger.Consistent) (h : Step w e w')
    (hN : w'.contract.ledger.numUsers ≤ N) : w.contract.ledger.numUsers ≤ N ∧
    w'.contract.ledger.sentRewards = w.contract.ledger.sentRewards +
      ∑ u ∈ Finset.Icc 1 N, Ledger.claimedBy w.contract.ledger w'.contract.ledger u e := by
  obtain ⟨s₁, ha, hticks⟩ := h.acts hc.sound hc.dust (hc.userTotal_zero rfl)
  obtain ⟨hsent, hpaid, hnum⟩ := Ledger.Ticked.chain_paid hticks
  have hle := ha.numUsers_le.trans (hnum.symm.trans_le hN)
  refine ⟨hle, ?_⟩
  rw [hsent, ha.sentRewards hc hle]
  refine congrArg _ (Finset.sum_congr rfl fun u _ => ?_)
  simp only [Ledger.claimedBy, hpaid]

/-- Nothing arrives at a cap of zero. -/
def Transition.OnCap (t : Transition) : Prop :=
  0 < t.event.arrived → 0 < t.before.contract.ledger.totalDelegationCap

/-- **The parts of the users are what has arrived**, or less if something arrived at a cap of zero,
and what they claimed is what was sent. -/
theorem Run.sums {w₀ w : World} {trace : List Transition} (h : Run QuietSwaps w₀ trace w)
    (h₀ : Initial w₀) {N : ℕ} (hN : w.contract.ledger.numUsers ≤ N) :
    ∑ u ∈ Finset.Icc 1 N, Trace.claimed trace u = w.contract.ledger.sentRewards ∧
      ∑ u ∈ Finset.Icc 1 N, Trace.entitled trace u ≤ w.contract.ledger.cumulatedRewards ∧
      ((∀ t ∈ trace, t.OnCap) →
        ∑ u ∈ Finset.Icc 1 N, Trace.entitled trace u = w.contract.ledger.cumulatedRewards) := by
  induction h with
  | start =>
    cases h₀ with
    | init h =>
      obtain ⟨_, -, h⟩ := bind_eq_ok.mp h
      obtain ⟨_, -, h⟩ := bind_eq_ok.mp h
      cases h
      simp [Trace.claimed, Trace.entitled]
  | @step trace w w' e hrun he hs ih =>
    obtain ⟨hacc, hsettled⟩ := (hrun.reachable h₀).settledSwaps
    have hc := hacc.consistent
    obtain ⟨hle, hsent⟩ := hs.sentRewards hc hN
    obtain ⟨hclaimed, hentitled, hexact⟩ := ih hle
    have hcum : w'.contract.ledger.cumulatedRewards =
        w.contract.ledger.cumulatedRewards + e.arrived :=
      (hs.rounded hacc hsettled he (u := ownerUserId) (by decide)).cumulatedRewards
    have hsum : ∑ u ∈ Finset.Icc 1 N, w.contract.ledger.entitled u e =
        e.arrived * ∑ u ∈ Finset.Icc 1 w.contract.ledger.numUsers,
          w.contract.ledger.rewardRate u := by
      simp only [Ledger.entitled]
      rw [← Finset.mul_sum, hc.sum_rewardRate hle]
    -- the rates add up to one, or nothing arrives
    have hsteady : 0 < e.arrived → w.contract.ledger.Steady := fun hpos => by
      cases e with
      | reward amount => exact hacc.steady (he.2 amount rfl hpos)
      | _ => exact absurd hpos (lt_irrefl 0)
    simp only [Trace.claimed_concat, Trace.entitled_concat, Finset.sum_add_distrib, hclaimed,
      hsent, hcum, hsum]
    push_cast
    refine ⟨trivial, ?_, fun hcaps => ?_⟩
    · rcases Nat.eq_zero_or_pos e.arrived with h0 | hpos
      · simp [h0, hentitled]
      · have hone := Ledger.sum_rewardRate_le (hsteady hpos) hc.users
        exact add_le_add hentitled (mul_le_of_le_one_right (Nat.cast_nonneg _) hone)
    · rw [hexact fun t ht => hcaps t (List.mem_append_left _ ht)]
      rcases Nat.eq_zero_or_pos e.arrived with h0 | hpos
      · simp [h0]
      · rw [Ledger.sum_rewardRate_eq (hsteady hpos) hc.users
          (hcaps _ (List.mem_append_right _ List.mem_cons_self) hpos), mul_one]

namespace Ledger

variable {s : Ledger} {u : ℕ}

/-- What a user can claim is what it is worth, rounded down. -/
theorem Accounted.accrued_le (hacc : s.Accounted) (hsettled : s.SettledSwaps)
    (hu : u ∈ Finset.Icc 1 s.numUsers) : ∃ accrued : ℕ, s.accrued u = .ok accrued ∧
      accrued ≤ s.worth u ∧ s.worth u ≤ accrued + roundingLoss u := by
  cases hsw : s.globalOpCheckpoint.swapping with
  | false =>
    have hs := hacc.steady hsw
    have hcp := hs.checkpoint_le u
    refine ⟨s.updatedUnclaimed u, ?_, (hs.share_roundsDown u).le_value hcp,
      (hs.share_roundsDown u).value_le hcp⟩
    rw [accrued, (hs.computable u).loadUpdatedUserRewards_eq]
    rfl
  | true =>
    -- the user is up to date
    have hdate := hsettled hsw u hu
    have hworth : s.worth u = s.userRewUnclaimed u := Accrual.value_of_upToDate hdate
    refine ⟨s.userRewUnclaimed u, ?_, hworth.ge, ?_⟩
    · rw [accrued, loadUpdatedUserRewards_of_eq hdate]
      rfl
    · rw [hworth]
      exact le_add_of_nonneg_right (Nat.cast_nonneg _)

/-- All that the users are worth, and what was sent, has arrived. -/
theorem Accounted.sum_worth_le (hacc : s.Accounted) (hsettled : s.SettledSwaps) :
    ∑ u ∈ Finset.Icc 1 s.numUsers, s.worth u + s.sentRewards ≤ s.cumulatedRewards := by
  cases hsw : s.globalOpCheckpoint.swapping with
  | false => exact hacc.rewardsCovered.solvent hsw
  | true =>
    have hworth : ∀ u ∈ Finset.Icc 1 s.numUsers, s.worth u = s.userRewUnclaimed u := fun u hu =>
      Accrual.value_of_upToDate (hsettled hsw u hu)
    rw [Finset.sum_congr rfl hworth]
    exact_mod_cast hacc.sum_le

end Ledger

/-- What the owner has beyond its part is what the rounding took from the others. -/
theorem Run.owner_le {w₀ w : World} {trace : List Transition} (h : Run QuietSwaps w₀ trace w)
    (h₀ : Initial w₀) (hcaps : ∀ t ∈ trace, t.OnCap) :
    w.contract.ledger.worth ownerUserId + Trace.claimed trace ownerUserId ≤
      Trace.entitled trace ownerUserId + ∑ u ∈ Finset.Icc 2 w.contract.ledger.numUsers,
        (Ledger.roundingLoss u * Trace.bookings trace u : ℕ) := by
  obtain ⟨hacc, hsettled⟩ := (h.reachable h₀).settledSwaps
  have hpos := hacc.consistent.users.numUsers_pos
  have howner : ∀ f : ℕ → ℚ, ∑ u ∈ Finset.Icc 1 w.contract.ledger.numUsers, f u =
      f ownerUserId + ∑ u ∈ Finset.Icc 2 w.contract.ledger.numUsers, f u := fun f => by
    rw [← Finset.insert_Icc_add_one_left_eq_Icc hpos, Finset.sum_insert (by simp)]
    rfl
  obtain ⟨hclaimed, -, hentitled⟩ := h.sums h₀ le_rfl
  have hsum := hacc.sum_worth_le hsettled
  rw [← hentitled hcaps, ← hclaimed, Nat.cast_sum, howner, howner, howner] at hsum
  -- what the others have is no less than their parts but for the rounding
  have hothers : ∑ u ∈ Finset.Icc 2 w.contract.ledger.numUsers, Trace.entitled trace u ≤
      ∑ u ∈ Finset.Icc 2 w.contract.ledger.numUsers, w.contract.ledger.worth u +
        ∑ u ∈ Finset.Icc 2 w.contract.ledger.numUsers, (Trace.claimed trace u : ℚ) +
        ∑ u ∈ Finset.Icc 2 w.contract.ledger.numUsers,
          ((Ledger.roundingLoss u * Trace.bookings trace u : ℕ) : ℚ) := by
    rw [← Finset.sum_add_distrib, ← Finset.sum_add_distrib]
    refine Finset.sum_le_sum fun u hu => ?_
    have hne : u ≠ 0 := by
      rw [Finset.mem_Icc] at hu
      omega
    have hle := (h.rounded h₀ hne).1
    push_cast
    linarith
  push_cast at hothers ⊢
  linarith

/-- **Every reward is distributed pro rata.** In every run from a deployment in which no rewards
arrive while funds are swapped, what a user has claimed and what it has accrued are its exact part
of all the rewards that have arrived, each at the rate of its time, less at most `roundingLoss` for
each step that booked the user and once more for what is accrued. If the cap was never zero when
rewards arrived, the owner has no more than its part and what the rounding took from the others. -/
theorem proRata_of_run {w₀ w : World} {trace : List Transition} (h₀ : Initial w₀)
    (h : Run QuietSwaps w₀ trace w) :
    (∀ u ∈ Finset.Icc 1 w.contract.ledger.numUsers, ∃ accrued : ℕ,
      w.contract.ledger.accrued u = .ok accrued ∧
      Trace.entitled trace u ≤ Trace.claimed trace u + accrued +
        Ledger.roundingLoss u * (Trace.bookings trace u + 1) ∧
      (u ≠ ownerUserId → Trace.claimed trace u + accrued ≤ Trace.entitled trace u)) ∧
    ((∀ t ∈ trace, t.OnCap) → ∃ accrued : ℕ,
      w.contract.ledger.accrued ownerUserId = .ok accrued ∧
      Trace.claimed trace ownerUserId + accrued ≤ Trace.entitled trace ownerUserId +
        ∑ u ∈ Finset.Icc 2 w.contract.ledger.numUsers,
          (Ledger.roundingLoss u * Trace.bookings trace u : ℕ)) := by
  obtain ⟨hacc, hsettled⟩ := (h.reachable h₀).settledSwaps
  refine ⟨fun u hu => ?_, fun hcaps => ?_⟩
  · have hne : u ≠ 0 := by
      rw [Finset.mem_Icc] at hu
      omega
    obtain ⟨accrued, haccrued, hle, hge⟩ := hacc.accrued_le hsettled hu
    obtain ⟨hlower, hupper⟩ := h.rounded h₀ hne
    refine ⟨accrued, haccrued, by linarith, fun howner => ?_⟩
    have := hupper howner
    linarith
  · obtain ⟨accrued, haccrued, hle, -⟩ := hacc.accrued_le hsettled (u := ownerUserId)
      (Finset.mem_Icc.mpr ⟨le_rfl, hacc.consistent.users.numUsers_pos⟩)
    have := h.owner_le h₀ hcaps
    exact ⟨accrued, haccrued, by linarith⟩

/-- With 40 and then 20 of 100 at a fee of 10%, a delegator claims at once, waits, unstakes, and
claims again: of 385.38 it is entitled to it has got 384, after three bookings. -/
theorem proRata_of_run_delegator :
    ∃ (w₀ w : World) (trace : List Transition), Initial w₀ ∧ Run QuietSwaps w₀ trace w ∧
      w.contract.ledger.accrued 2 = .ok 0 ∧ Trace.claimed trace 2 = 384 ∧
      Trace.claimed trace 2 ≤ Trace.entitled trace 2 ∧
      Trace.entitled trace 2 ≤ Trace.claimed trace 2 + 2 * (3 + 1) := by
  let events : List Event :=
    [.transaction { Env.plain 1 0 9 with payment := 60 } .stake,
      .transaction { Env.plain 7 0 9 with payment := 40 } .stake, .reward 1007,
      .transaction (.plain 7 1 9) .claimRewards,
      .transaction { Env.plain 8 1 9 with payment := 30 } .stake, .reward 13,
      .transaction (.plain 7 2 9) (.unStake 20), .reward 101,
      .transaction (.plain 7 3 9) .claimRewards]
  have hrun : ((World.deploy 1 0 2 1000 0 9 1 100).bind fun w₀ => (w₀.record events).map fun r =>
      (r.1.all fun t => !t.event.cleansDust &&
          !t.before.contract.ledger.globalOpCheckpoint.swapping,
        (r.2.contract.ledger.accrued 2).toOption, r.2.contract.ledger.numUsers,
        Trace.claimed r.1 2, Trace.bookings r.1 2)) = some (true, some 0, 3, 384, 3) := by
    decide +kernel
  obtain ⟨w₀, hw₀, hrun⟩ := Option.bind_eq_some_iff.mp hrun
  obtain ⟨⟨trace, w⟩, hrecord, hobs⟩ := Option.map_eq_some_iff.mp hrun
  simp only [Prod.mk.injEq, toOption_eq_some, List.all_eq_true, Bool.and_eq_true,
    Bool.not_eq_true'] at hobs
  obtain ⟨hquiet, haccrued, hnum, hclaimed, hbookings⟩ := hobs
  have hinit := World.initial_deploy hw₀
  have hhist : Run QuietSwaps w₀ trace w := World.run_record hrecord fun t ht =>
    ⟨(hquiet t ht).1, fun _ _ _ => (hquiet t ht).2⟩
  obtain ⟨accrued, hok, hlower, hupper⟩ :=
    (proRata_of_run hinit hhist).1 2 (by rw [hnum]; decide)
  obtain rfl : 0 = accrued := by rwa [haccrued, Except.ok.injEq] at hok
  have hle := hupper (by decide)
  rw [hbookings] at hlower
  refine ⟨w₀, w, trace, hinit, hhist, haccrued, hclaimed, by simpa using hle, ?_⟩
  simpa [Ledger.roundingLoss, ownerUserId] using hlower

end Delegation
