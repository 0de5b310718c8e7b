import Delegation.Latest.Consistent

/-!
# Nobody's rewards change with somebody's stake

One `stake` or `unStake` can activate the waiting funds of many users, and with them the total on
which the share of the owner depends. All the same no call of a delegator, and no cleanup of active
dust, changes the rewards that any user has accrued; only `claimRewards` does, for its caller, and
it pays exactly what it takes.
-/

namespace Delegation

open Outcome FundStore

/-- The calls of a delegator, and the cleanup of active dust. -/
def Call.movesStake : Call → Bool
  | .stake | .unStake _ | .unBond | .claimRewards | .dustCleanupActive _ => true
  | _ => false

namespace Ledger

variable {s s' : Ledger} {env : Env} {call : Call} {u : ℕ}

/-- `load_updated_user_rewards(u).unclaimed_rewards`, as the code computes it. -/
def accrued (s : Ledger) (u : ℕ) : Exec ℕ :=
  (s.loadUpdatedUserRewards u).map UserRewardData.unclaimedRewards

/-- Every one of these calls is neutral, for everybody but a caller who claims. -/
theorem Act.neutral (hs : s.FundsSound) (hboot : s.UpToDateInBootstrap)
    (ha : s.Act (.transaction env call) s') (hcall : call.movesStake = true) (hu : u ≠ 0)
    (hclaim : call = .claimRewards → u ≠ s.userId env.caller) : Neutral s s' u := by
  cases ha with
  | staked h =>
    have hcredit : Neutral s (s.credit env.payment) u := .inl ⟨rfl, rfl⟩
    exact hcredit.trans (h.neutral (s := s.credit env.payment) hs hboot hu)
  | unStaked _ h => exact h.neutral hboot hu
  | unBonded _ h => exact h.neutral hu
  | claimed _ h => exact h.neutral (hclaim rfl)
  | activeCleaned _ h => exact h.neutral hboot hu
  | kept hadmin =>
    -- no call of these is administrative
    cases call <;> cases hcall <;> cases hadmin
  | @operated _ op => cases op <;> cases hcall
  | continued => cases hcall
  | waitingCleaned => cases hcall

theorem Act.claimed_of_call (ha : s.Act (.transaction env call) s') (hcall : call = .claimRewards) :
    ∃ claimed, s.Claimed env s' claimed := by
  cases ha with
  | claimed _ h => exact ⟨_, h⟩
  | @operated _ op => cases op <;> cases hcall
  | kept hadmin =>
    rw [hcall] at hadmin
    cases hadmin
  | _ => cases hcall

/-- Claiming pays what the view shows, and leaves nothing. -/
theorem Claimed.accrued {claimed : ℕ} (h : s.Claimed env s' claimed) :
    s.claimableRewards env.caller = .ok claimed ∧ s.accrued (s.userId env.caller) = .ok claimed ∧
      s'.accrued (s.userId env.caller) = .ok 0 ∧
      s'.paidOut = Function.update s.paidOut env.caller (s.paidOut env.caller + claimed) := by
  obtain ⟨-, hid, hload, -⟩ := h
  refine ⟨?_, ?_, ?_, rfl⟩
  · simp only [claimableRewards, if_neg hid, hload, ok_bind, pure_eq_ok]
  · simp only [Ledger.accrued, hload]
    rfl
  · rw [Ledger.accrued, loadUpdatedUserRewards_of_eq (by simp), storeUserRewardData_load]
    rfl

end Ledger

open Ledger

/-- **User operations are reward-neutral.** In every reachable state, a call of a delegator or a
cleanup of active dust leaves the accrued rewards of every user, at the same cumulated rewards, as
they were. The exception is the caller of `claimRewards`, who is paid what `getClaimableRewards`
showed and has nothing accrued afterwards. -/
theorem accrued_of_reachable {w w' : World} (h : Reachable (fun _ _ => True) w) {env : Env}
    {call : Call} (hcall : call.movesStake = true)
    (hstep : Step w (.transaction env call) w') :
    w'.contract.ledger.cumulatedRewards = w.contract.ledger.cumulatedRewards ∧
    (∀ u, u ≠ 0 → (call = .claimRewards → u ≠ w.contract.ledger.userId env.caller) →
      w'.contract.ledger.accrued u = w.contract.ledger.accrued u) ∧
    (call = .claimRewards → ∃ claimed,
      w.contract.ledger.claimableRewards env.caller = .ok claimed ∧
      w.contract.ledger.accrued (w.contract.ledger.userId env.caller) = .ok claimed ∧
      w'.contract.ledger.accrued (w.contract.ledger.userId env.caller) = .ok 0 ∧
      w'.contract.ledger.paidOut = Function.update w.contract.ledger.paidOut env.caller
        (w.contract.ledger.paidOut env.caller + claimed)) := by
  have hc := h.consistent
  obtain ⟨s₁, hact, -, hend⟩ := hstep.acts_ticks hc.sound hc.dust (hc.userTotal_zero rfl)
  obtain rfl : w'.contract.ledger = s₁ := hend (by cases call <;> first | rfl | cases hcall)
  have hneutral : ∀ u, u ≠ 0 → (call = .claimRewards → u ≠ w.contract.ledger.userId env.caller) →
      Neutral w.contract.ledger w'.contract.ledger u := fun u =>
    hact.neutral hc.sound hc.books.upToDate hcall
  refine ⟨?_, fun u hu hne => (hneutral u hu hne).updated_eq, ?_⟩
  · -- the id after the last one is not the caller's
    have hle := hc.users.userId_le env.caller
    exact (hneutral (w.contract.ledger.numUsers + 1) (by omega) fun _ => by omega).cumulatedRewards
  · intro hclaim
    obtain ⟨claimed, hclaimed⟩ := hact.claimed_of_call hclaim
    exact ⟨claimed, hclaimed.accrued⟩

/-- A delegator with 40 of 100 unstakes half of it, at a fee of 10% and rewards of 1000, and a third
one who waits takes its place: all three keep what they had. -/
theorem accrued_of_reachable_unStake :
    ∃ w w' : World, [1, 2, 3].map w.contract.ledger.accrued = [.ok 640, .ok 360, .ok 0] ∧
      [1, 2, 3].map w'.contract.ledger.accrued = [.ok 640, .ok 360, .ok 0] := by
  let events : List Event :=
    [.transaction { Env.plain 1 0 9 with payment := 60 } .stake,
      .transaction { Env.plain 7 0 9 with payment := 40 } .stake,
      .transaction { Env.plain 8 0 9 with payment := 30 } .stake, .reward 1000]
  have hrun : (((World.deploy 1 0 2 1000 0 9 1 100).bind (·.run events)).bind fun w =>
      (w.after (.transaction (.plain 7 0 9) (.unStake 20))).map fun _ =>
        [1, 2, 3].map fun u => (w.contract.ledger.accrued u).toOption) =
      some [some 640, some 360, some 0] := by
    decide +kernel
  obtain ⟨w, hw, hrun⟩ := Option.bind_eq_some_iff.mp hrun
  obtain ⟨w', hw', hobs⟩ := Option.map_eq_some_iff.mp hrun
  have hreach : Reachable (fun _ _ => True) w :=
    .run (fun _ h => World.initial_deploy h) (fun _ _ _ => trivial) hw
  have hsame := (accrued_of_reachable hreach rfl (World.step_after hw')).2.1
  simp only [List.map_cons, List.map_nil, List.cons.injEq, and_true, toOption_eq_some] at hobs
  obtain ⟨h₁, h₂, h₃⟩ := hobs
  refine ⟨w, w', by simp [h₁, h₂, h₃], ?_⟩
  simp [hsame 1 (by decide) nofun, hsame 2 (by decide) nofun, hsame 3 (by decide) nofun, h₁, h₂, h₃]

end Delegation
