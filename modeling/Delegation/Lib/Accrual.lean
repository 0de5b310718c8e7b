import Mathlib.Tactic

/-!
# Lazy accrual of a growing total

A pot grows over time, and what arrives is shared among accounts at given rates. The shares are not
booked when the pot grows: an account records the size of the pot up to which it has been booked
(its checkpoint), and is brought up to date when it is next used, with whatever rounding down that
involves. Rates may change, but only those of accounts that are up to date.

`Solvent` is the invariant of such a scheme: what the accounts have in their books, plus what they
have not yet booked at the present rates, plus what has been paid out, is at most what has arrived.
Every operation of the scheme keeps it (`Solvent.arrive`, `Solvent.of_value_le`, `Solvent.pay`),
`Solvent.of_settled` establishes it, and it bounds the books themselves (`Solvent.sum_booked_le`).

`RoundsDown` is the other side of the scheme, the shares themselves: when an account is brought up
to date makes no difference but for the rounding (`RoundsDown.sum_le`, `RoundsDown.le_sum`).

What one account is worth grows by its exact part of what arrives (`value_add`), and a booking takes
from it no more than the rounding (`RoundsDown.le_value`, `RoundsDown.value_le`).
-/

namespace Accrual

variable {ι : Type*} {accounts : Finset ι}

/-- What an account is worth when the pot has grown to `total`. -/
def value (total : ℕ) (booked checkpoint : ι → ℕ) (rate : ι → ℚ) (i : ι) : ℚ :=
  booked i + ((total : ℚ) - checkpoint i) * rate i

/-- What the accounts are worth and what was paid is covered by what has arrived. -/
def Solvent (accounts : Finset ι) (total paid : ℕ) (booked checkpoint : ι → ℕ) (rate : ι → ℚ) :
    Prop :=
  ∑ i ∈ accounts, value total booked checkpoint rate i + paid ≤ total

variable {total paid amount : ℕ} {booked booked' checkpoint checkpoint' : ι → ℕ}
  {rate rate' : ι → ℚ}

/-- More arrives, and the rates hand out no more than that. -/
theorem Solvent.arrive (h : Solvent accounts total paid booked checkpoint rate)
    (hrate : ∑ i ∈ accounts, rate i ≤ 1) (amount : ℕ) :
    Solvent accounts (total + amount) paid booked checkpoint rate := by
  have hsum : ∑ i ∈ accounts, value (total + amount) booked checkpoint rate i =
      ∑ i ∈ accounts, value total booked checkpoint rate i + amount * ∑ i ∈ accounts, rate i := by
    rw [Finset.mul_sum, ← Finset.sum_add_distrib]
    refine Finset.sum_congr rfl fun i _ => ?_
    simp only [value]
    push_cast
    ring
  have hle : (amount : ℚ) * ∑ i ∈ accounts, rate i ≤ amount :=
    mul_le_of_le_one_right (Nat.cast_nonneg amount) hrate
  simp only [Solvent] at h ⊢
  rw [hsum]
  push_cast
  linarith

/-- When all accounts were brought up to date at once and nothing has been booked since, the books
of that moment are covered, whatever the rates are now. -/
theorem Solvent.of_settled {settled : ℕ} (hcheckpoint : ∀ i ∈ accounts, checkpoint i = settled)
    (hbooked : ∑ i ∈ accounts, booked i + paid ≤ settled) (hle : settled ≤ total)
    (hrate : ∑ i ∈ accounts, rate i ≤ 1) :
    Solvent accounts total paid booked checkpoint rate := by
  obtain ⟨amount, rfl⟩ := Nat.exists_eq_add_of_le hle
  refine Solvent.arrive ?_ hrate amount
  have hvalue : ∀ i ∈ accounts, value settled booked checkpoint rate i = booked i := fun i hi => by
    simp [value, hcheckpoint i hi]
  rw [Solvent, Finset.sum_congr rfl hvalue]
  exact_mod_cast hbooked

/-- Booking, rounding down and changing the rates of settled accounts keep the invariant, as long
as no account is worth more than before. -/
theorem Solvent.of_value_le (h : Solvent accounts total paid booked checkpoint rate)
    (hle : ∀ i ∈ accounts, value total booked' checkpoint' rate' i ≤
      value total booked checkpoint rate i) :
    Solvent accounts total paid booked' checkpoint' rate' := by
  have hsum := Finset.sum_le_sum hle
  simp only [Solvent] at h ⊢
  linarith

/-- What one account has in its books is paid out. -/
theorem Solvent.pay [DecidableEq ι] (h : Solvent accounts total paid booked checkpoint rate) {i : ι}
    (hi : i ∈ accounts) (hle : amount ≤ booked i) :
    Solvent accounts total (paid + amount)
      (Function.update booked i (booked i - amount)) checkpoint rate := by
  have hsum : ∑ j ∈ accounts, value total (Function.update booked i (booked i - amount))
      checkpoint rate j + amount = ∑ j ∈ accounts, value total booked checkpoint rate j := by
    have hrest : ∀ j ∈ accounts.erase i,
        value total (Function.update booked i (booked i - amount)) checkpoint rate j =
          value total booked checkpoint rate j := fun j hj => by
      simp only [value, Function.update_of_ne (Finset.ne_of_mem_erase hj)]
    have hnew : value total (Function.update booked i (booked i - amount)) checkpoint rate i +
        amount = value total booked checkpoint rate i := by
      simp only [value, Function.update_self, Nat.cast_sub hle]
      ring
    rw [← Finset.add_sum_erase _ (fun j => value total booked checkpoint rate j) hi, ← hnew,
      ← Finset.sum_congr rfl hrest, ← Finset.add_sum_erase accounts _ hi]
    ring
  simp only [Solvent] at h ⊢
  push_cast
  linarith

/-- A new account with empty books and no rate. -/
theorem Solvent.enroll [DecidableEq ι] (h : Solvent accounts total paid booked checkpoint rate)
    {i : ι} (hbooked : booked i = 0) (hrate : rate i = 0) :
    Solvent (insert i accounts) total paid booked checkpoint rate := by
  by_cases hi : i ∈ accounts
  · rwa [Finset.insert_eq_of_mem hi]
  · simp only [Solvent] at h ⊢
    rw [Finset.sum_insert hi]
    simpa [value, hbooked, hrate] using h

/-- The books are covered. -/
theorem Solvent.sum_booked_le (h : Solvent accounts total paid booked checkpoint rate)
    (hcheckpoint : ∀ i ∈ accounts, checkpoint i ≤ total) (hrate : ∀ i ∈ accounts, 0 ≤ rate i) :
    ∑ i ∈ accounts, booked i + paid ≤ total := by
  have hle : ∑ i ∈ accounts, (booked i : ℚ) ≤
      ∑ i ∈ accounts, value total booked checkpoint rate i := by
    refine Finset.sum_le_sum fun i hi => ?_
    have hcast : (checkpoint i : ℚ) ≤ total := Nat.cast_le.mpr (hcheckpoint i hi)
    have := mul_nonneg (sub_nonneg.mpr hcast) (hrate i hi)
    simp only [value]
    linarith
  simp only [Solvent] at h
  have hcast : ((∑ i ∈ accounts, booked i + paid : ℕ) : ℚ) ≤ total := by
    push_cast
    linarith
  exact_mod_cast hcast

/-! ### The timing of bookings -/

/-- A rule for the share of an account in what arrives. It rounds down, by no more than `loss`, and
gives at least as much for two arrivals together as for one after the other. -/
structure RoundsDown (share : ℕ → ℕ) (rate : ℚ) (loss : ℕ) : Prop where
  add_le : ∀ x y, share x + share y ≤ share (x + y)
  le_exact : ∀ x, (share x : ℚ) ≤ x * rate
  exact_le : ∀ x : ℕ, (x : ℚ) * rate ≤ share x + loss

section Timing

variable {share : ℕ → ℕ} {rate : ℚ} {loss : ℕ}

theorem RoundsDown.zero (h : RoundsDown share rate loss) : share 0 = 0 := by
  have hadd := h.add_le 0 0
  rw [Nat.add_zero] at hadd
  omega

/-- **Booking often gains nothing.** -/
theorem RoundsDown.sum_le (h : RoundsDown share rate loss) (arrivals : List ℕ) :
    (arrivals.map share).sum ≤ share arrivals.sum := by
  induction arrivals with
  | nil => simp
  | cons x arrivals ih =>
    rw [List.map_cons, List.sum_cons, List.sum_cons]
    exact (Nat.add_le_add_left ih _).trans (h.add_le _ _)

/-- **Booking often costs at most the rounding of each booking.** -/
theorem RoundsDown.le_sum (h : RoundsDown share rate loss) (arrivals : List ℕ) :
    share arrivals.sum ≤ (arrivals.map share).sum + loss * arrivals.length := by
  have hexact : (arrivals.sum : ℚ) * rate ≤ (arrivals.map share).sum + loss * arrivals.length := by
    induction arrivals with
    | nil => simp
    | cons x arrivals ih =>
      have hone := h.exact_le x
      rw [List.map_cons, List.sum_cons, List.sum_cons, List.length_cons, Nat.cast_add, Nat.cast_add,
        Nat.cast_succ]
      linarith
  exact_mod_cast (h.le_exact _).trans hexact

/-! ### One account -/

variable {total : ℕ} {booked checkpoint : ι → ℕ} {rates : ι → ℚ} {i : ι}

/-- An account gets its exact part of what arrives. -/
theorem value_add (amount : ℕ) : value (total + amount) booked checkpoint rates i =
    value total booked checkpoint rates i + amount * rates i := by
  simp only [value]
  push_cast
  ring

/-- The rate of an account that is up to date does not matter. -/
theorem value_of_upToDate (h : checkpoint i = total) :
    value total booked checkpoint rates i = booked i := by
  simp [value, h]

/-- A booking gives an account no more than it is worth. -/
theorem RoundsDown.le_value (h : RoundsDown share (rates i) loss) (hle : checkpoint i ≤ total) :
    ((booked i + share (total - checkpoint i) : ℕ) : ℚ) ≤
      value total booked checkpoint rates i := by
  have hshare := h.le_exact (total - checkpoint i)
  rw [Nat.cast_sub hle] at hshare
  simp only [value, Nat.cast_add]
  linarith

/-- A booking takes from an account no more than the rounding. -/
theorem RoundsDown.value_le (h : RoundsDown share (rates i) loss) (hle : checkpoint i ≤ total) :
    value total booked checkpoint rates i ≤
      (booked i + share (total - checkpoint i) : ℕ) + loss := by
  have hshare := h.exact_le (total - checkpoint i)
  rw [Nat.cast_sub hle] at hshare
  simp only [value, Nat.cast_add]
  linarith

end Timing

end Accrual
