import Mathlib.Algebra.Order.Floor.Semifield
import Delegation.Lib.Accrual
import Delegation.Latest.Settle

/-!
# The rates behind the shares

`load_updated_user_rewards` takes the delegators' part of a reward and a stake's part of that, and
rounds down each time. Without the rounding the share of a user is a fixed part of the reward,
`Ledger.rewardRate`. The code never gives more than that (`share_le`), and with the two roundings of
a stake, and the two more that the owner's fee and missing stake bring, it gives less by at most
`roundingLoss` (`le_share_add`). Rounding down one reward also gives at least as much as rounding
down its pieces (`share_add_le`). Together, the shares are a rule that `Accrual.RoundsDown`.
-/

namespace Delegation

open Outcome

namespace Ledger

variable {s s' : Ledger} {u : ℕ}

/-! ### The rates -/

/-- The part of the delegators in a reward, as a rate. -/
def delegatorsRate (s : Ledger) : ℚ :=
  ((percentageDenominator - s.serviceFee : ℕ) : ℚ) / percentageDenominator

/-- The part of a user in a reward, as a rate. -/
def rewardRate (s : Ledger) (u : ℕ) : ℚ :=
  (if u = ownerUserId then (s.serviceFee : ℚ) / percentageDenominator +
      s.delegatorsRate *
        (((s.totalDelegationCap - s.userStakeOfType 0 .active : ℕ) : ℚ) / s.totalDelegationCap)
    else 0) +
    s.delegatorsRate * ((s.userStakeOfType u .active : ℚ) / s.totalDelegationCap)

theorem delegatorsRate_nonneg (s : Ledger) : 0 ≤ s.delegatorsRate := by
  unfold delegatorsRate
  positivity

theorem rewardRate_nonneg (s : Ledger) (u : ℕ) : 0 ≤ s.rewardRate u := by
  have := s.delegatorsRate_nonneg
  unfold rewardRate
  split_ifs <;> positivity

/-- The rate is a function of the user's terms. -/
theorem rewardRate_congr (h : s'.rewardTerms u = s.rewardTerms u) :
    s'.rewardRate u = s.rewardRate u := by
  simp only [rewardTerms, RewardTerms.mk.injEq] at h
  obtain ⟨-, hfee, hcap, htotal, hactive⟩ := h
  simp only [rewardRate, delegatorsRate, hfee, hcap, hactive]
  by_cases hu : u = ownerUserId
  · rw [if_pos hu, if_pos hu] at htotal
    simp only [if_pos hu, htotal]
  · simp only [if_neg hu]

/-- The delegators' part is rounded down. -/
theorem delegatorsPart_le (s : Ledger) (x : ℕ) :
    (s.delegatorsPart x : ℚ) ≤ x * s.delegatorsRate := by
  calc (s.delegatorsPart x : ℚ)
      ≤ (((percentageDenominator - s.serviceFee) * x : ℕ) : ℚ) / (percentageDenominator : ℕ) :=
        Nat.cast_div_le
    _ = x * s.delegatorsRate := by
        rw [delegatorsRate]
        push_cast
        ring

/-- A stake's part of the delegators' part is rounded down. -/
theorem stakePart_le (s : Ledger) (x stake : ℕ) :
    ((s.delegatorsPart x * stake / s.totalDelegationCap : ℕ) : ℚ) ≤
      x * (s.delegatorsRate * ((stake : ℚ) / s.totalDelegationCap)) := by
  calc ((s.delegatorsPart x * stake / s.totalDelegationCap : ℕ) : ℚ)
      ≤ ((s.delegatorsPart x * stake : ℕ) : ℚ) / (s.totalDelegationCap : ℕ) := Nat.cast_div_le
    _ = s.delegatorsPart x * ((stake : ℚ) / s.totalDelegationCap) := by
        push_cast
        ring
    _ ≤ x * s.delegatorsRate * ((stake : ℚ) / s.totalDelegationCap) :=
        mul_le_mul_of_nonneg_right (s.delegatorsPart_le x) (by positivity)
    _ = x * (s.delegatorsRate * ((stake : ℚ) / s.totalDelegationCap)) := by ring

/-- **A share is rounded down.** -/
theorem share_le (s : Ledger) (u x : ℕ) : (s.share u x : ℚ) ≤ x * s.rewardRate u := by
  have hstake := s.stakePart_le x (s.userStakeOfType u .active)
  by_cases hu : u = ownerUserId
  · have hmissing := s.stakePart_le x (s.totalDelegationCap - s.userStakeOfType 0 .active)
    have hfee : ((s.serviceFee * x / percentageDenominator : ℕ) : ℚ) ≤
        x * ((s.serviceFee : ℚ) / percentageDenominator) := by
      calc ((s.serviceFee * x / percentageDenominator : ℕ) : ℚ)
          ≤ ((s.serviceFee * x : ℕ) : ℚ) / (percentageDenominator : ℕ) := Nat.cast_div_le
        _ = x * ((s.serviceFee : ℚ) / percentageDenominator) := by
            push_cast
            ring
    simp only [share, rewardRate, if_pos hu]
    push_cast at hfee hmissing hstake ⊢
    linarith
  · simp only [share, rewardRate, if_neg hu, zero_add]
    exact hstake

/-! ### What rounding costs -/

/-- The most that rounding takes from a share: 1 for the delegators' part, 1 for each stake, and
another for the service fee. -/
def roundingLoss (u : ℕ) : ℕ := if u = ownerUserId then 4 else 2

/-- Division rounds down by less than one. -/
theorem div_le_natDiv_add_one (x y : ℕ) : (x : ℚ) / y ≤ (x / y : ℕ) + 1 := by
  have hlt := Nat.lt_floor_add_one ((x : ℚ) / y)
  rw [Nat.floor_div_eq_div] at hlt
  exact hlt.le

theorem le_delegatorsPart_add (s : Ledger) (x : ℕ) :
    (x : ℚ) * s.delegatorsRate ≤ s.delegatorsPart x + 1 := by
  calc (x : ℚ) * s.delegatorsRate
      = (((percentageDenominator - s.serviceFee) * x : ℕ) : ℚ) / (percentageDenominator : ℕ) := by
        rw [delegatorsRate]
        push_cast
        ring
    _ ≤ s.delegatorsPart x + 1 := div_le_natDiv_add_one _ _

/-- What a stake loses: its part of the 1 that the delegators lose, and 1 of its own. -/
theorem le_stakePart_add (s : Ledger) (x stake : ℕ) :
    (x : ℚ) * (s.delegatorsRate * ((stake : ℚ) / s.totalDelegationCap)) ≤
      (s.delegatorsPart x * stake / s.totalDelegationCap : ℕ) +
        (1 + (stake : ℚ) / s.totalDelegationCap) := by
  calc (x : ℚ) * (s.delegatorsRate * ((stake : ℚ) / s.totalDelegationCap))
      = x * s.delegatorsRate * ((stake : ℚ) / s.totalDelegationCap) := by ring
    _ ≤ (s.delegatorsPart x + 1) * ((stake : ℚ) / s.totalDelegationCap) :=
        mul_le_mul_of_nonneg_right (s.le_delegatorsPart_add x) (by positivity)
    _ = ((s.delegatorsPart x * stake : ℕ) : ℚ) / (s.totalDelegationCap : ℕ) +
        (stake : ℚ) / s.totalDelegationCap := by
        push_cast
        ring
    _ ≤ (s.delegatorsPart x * stake / s.totalDelegationCap : ℕ) +
        (1 + (stake : ℚ) / s.totalDelegationCap) := by
        have := div_le_natDiv_add_one (s.delegatorsPart x * stake) s.totalDelegationCap
        linarith

/-- **A share is rounded down by no more than `roundingLoss`.** -/
theorem le_share_add (hactive : s.userStakeOfType 0 .active ≤ s.totalDelegationCap)
    (hu : s.userStakeOfType u .active ≤ s.userStakeOfType 0 .active) (x : ℕ) :
    (x : ℚ) * s.rewardRate u ≤ s.share u x + roundingLoss u := by
  have hstake := s.le_stakePart_add x (s.userStakeOfType u .active)
  have hcap : (0 : ℚ) ≤ s.totalDelegationCap := Nat.cast_nonneg _
  by_cases howner : u = ownerUserId
  · have hmissing := s.le_stakePart_add x (s.totalDelegationCap - s.userStakeOfType 0 .active)
    have hfee := div_le_natDiv_add_one (s.serviceFee * x) percentageDenominator
    -- the two stakes share the loss of the delegators' part
    have htwo :
        ((s.totalDelegationCap - s.userStakeOfType 0 .active : ℕ) : ℚ) / s.totalDelegationCap +
          (s.userStakeOfType u .active : ℚ) / s.totalDelegationCap ≤ 1 := by
      rw [← add_div]
      refine div_le_one_of_le₀ ?_ hcap
      exact_mod_cast (by omega : s.totalDelegationCap - s.userStakeOfType 0 .active +
        s.userStakeOfType u .active ≤ s.totalDelegationCap)
    have hrate : (x : ℚ) * ((s.serviceFee : ℚ) / percentageDenominator) =
        ((s.serviceFee * x : ℕ) : ℚ) / (percentageDenominator : ℕ) := by
      push_cast
      ring
    simp only [share, rewardRate, roundingLoss, if_pos howner]
    push_cast at hfee hmissing hstake hrate ⊢
    linarith
  · have hone : (s.userStakeOfType u .active : ℚ) / s.totalDelegationCap ≤ 1 :=
      div_le_one_of_le₀ (by exact_mod_cast hu.trans hactive) hcap
    simp only [share, rewardRate, roundingLoss, if_neg howner, zero_add]
    push_cast at hstake ⊢
    linarith

/-! ### Shares of pieces -/

theorem delegatorsPart_add_le (s : Ledger) (x y : ℕ) :
    s.delegatorsPart x + s.delegatorsPart y ≤ s.delegatorsPart (x + y) := by
  unfold delegatorsPart
  rw [Nat.mul_add]
  exact Nat.div_add_div_le_add_div

theorem stakePart_add_le (s : Ledger) (x y stake : ℕ) :
    s.delegatorsPart x * stake / s.totalDelegationCap +
      s.delegatorsPart y * stake / s.totalDelegationCap ≤
      s.delegatorsPart (x + y) * stake / s.totalDelegationCap := by
  refine (Nat.div_add_div_le_add_div).trans (Nat.div_le_div_right ?_)
  rw [← Nat.add_mul]
  exact Nat.mul_le_mul_right _ (s.delegatorsPart_add_le x y)

/-- **A reward gives at least what its pieces give.** -/
theorem share_add_le (s : Ledger) (u x y : ℕ) : s.share u x + s.share u y ≤ s.share u (x + y) := by
  have hstake := s.stakePart_add_le x y (s.userStakeOfType u .active)
  by_cases howner : u = ownerUserId
  · have hmissing := s.stakePart_add_le x y (s.totalDelegationCap - s.userStakeOfType 0 .active)
    have hfee :
        s.serviceFee * x / percentageDenominator + s.serviceFee * y / percentageDenominator ≤
          s.serviceFee * (x + y) / percentageDenominator := by
      rw [Nat.mul_add]
      exact Nat.div_add_div_le_add_div
    simp only [share, if_pos howner]
    omega
  · simp only [share, if_neg howner, zero_add]
    exact hstake

/-- The shares of a user follow a rule that rounds down. -/
theorem share_roundsDown (hactive : s.userStakeOfType 0 .active ≤ s.totalDelegationCap)
    (hu : s.userStakeOfType u .active ≤ s.userStakeOfType 0 .active) :
    Accrual.RoundsDown (s.share u) (s.rewardRate u) (roundingLoss u) :=
  ⟨s.share_add_le u, s.share_le u, le_share_add hactive hu⟩

end Ledger

end Delegation
