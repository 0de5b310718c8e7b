import Delegation.Fund.History
import Delegation.Latest.Rebalance
import Delegation.Latest.System

/-!
# The dry run of a swap

`split_convert_max_by_type` can be run without touching the funds, to learn whom it will affect. The
dry run keeps account of the maximum by other means than the real one (`decrease_max_amount` instead
of `decrease_fund_balance`) and follows a list that stays as it is, while the real run edits the
list under its feet. Both are `drain` on the queue of the type, so they agree, as long as the filter
does not look at the links of an item: these are the one thing that the real run has already changed
when it gets to the item.

Hence every user whose stake the real run activates is among those whose rewards were computed
before it (`swap_dryRun_agrees`).
-/

namespace Delegation

open Outcome

/-! ### Visited entries -/

/-- The entries that a swap visits when nothing interrupts it. An accepted entry lowers the maximum
by its balance, and nothing is visited once the maximum is drained. -/
def Entry.visited (f : Entry → Option FundDescription) : Option ℕ → List Entry → List Entry
  | _, [] => []
  | max, e :: q =>
      if max = some 0 then []
      else e :: visited f (if (f e).isSome then max.map (· - e.balance) else max) q

/-- The part of an entry that is taken is what the maximum loses. -/
theorem map_sub_takenBalance (max : Option ℕ) (balance : ℕ) :
    max.map (· - FundStore.takenBalance max balance) = max.map (· - balance) := by
  cases max with
  | none => rfl
  | some m =>
    simp only [FundStore.takenBalance, Option.map_some, Option.some.injEq]
    omega

/-- The list program visits these entries. -/
theorem drain_visitedUsers (f : Entry → Option FundDescription) (k : ℕ) (max : Option ℕ)
    (q : List Entry) : (drain (fun _ => true) f never k max q).visitedUsers =
      (Entry.visited f max q).map Entry.userId := by
  refine drain_induct (P := fun _ max q r => r.visitedUsers =
    (Entry.visited f max q).map Entry.userId) ?_ ?_ ?_ ?_ ?_ k max q
  · intros
    rfl
  · intro _ _ _ _ hsel
    simp at hsel
  · intro k max e q _ hstop
    have hmax : max = some 0 := hstop.resolve_left Bool.false_ne_true
    rw [Entry.visited, if_pos hmax, List.map_nil]
  · intro k max e q _ hstop hf ih
    rw [Entry.visited, if_neg (not_or.mp hstop).2, hf, List.map_cons]
    exact congrArg (e.userId :: ·) ih
  · intro k max e q d _ hstop hf ih
    rw [map_sub_takenBalance] at ih
    rw [Entry.visited, if_neg (not_or.mp hstop).2, hf, List.map_cons, map_sub_takenBalance]
    exact congrArg (e.userId :: ·) ih

namespace Ledger

variable {s s' : Ledger} {swappable : ℕ}

/-! ### Rewards before the swap -/

/-- The swap starts from a ledger with the old funds, in which the rewards of every user whose
active stake is about to change are stored. -/
theorem rewards_stored_before_swap (h : s.FundsSound)
    (hcall : s.swapWaitingToActiveComputeRewards swappable = .ok s') :
    ∃ (mid : Ledger) (users : List ℕ), mid.funds = s.funds ∧
      mid.funds.swapWaitingToActive swappable never = .ok (s'.funds, 0, users) ∧
      s' = { mid with funds := s'.funds } ∧
      ∀ u, s'.funds.userTotal u .active ≠ s.funds.userTotal u .active →
        s.loadUpdatedUserRewards u = .ok (mid.loadUserRewardData u) := by
  simp only [swapWaitingToActiveComputeRewards] at hcall
  obtain ⟨⟨funds, affectedUsers, remaining⟩, hdry, hcall⟩ := bind_eq_ok.mp hcall
  obtain ⟨rfl, funds', hreal⟩ :=
    (FundStore.Sound.getAffectedUsersOfSwapWaitingToActive h (by decide) swappable never).of_ok hdry
  obtain ⟨moved, amount, hsw⟩ :=
    (FundStore.Sound.swapWaitingToActive h (by decide) swappable never).of_ok hreal
  obtain ⟨_, -, hcall⟩ := bind_eq_ok.mp hcall
  obtain ⟨s₁, hone, hcall⟩ := bind_eq_ok.mp hcall
  obtain ⟨mid, hall, hcall⟩ := bind_eq_ok.mp hcall
  -- computing rewards does not touch the funds
  have hset := ((s.computeOneUserReward_spec ownerUserId).of_ok hone).trans
    ((s₁.computeAffectedUserRewards_spec affectedUsers).of_ok hall)
  have hmid : mid.funds.swapWaitingToActive swappable never =
      .ok (funds', remaining, affectedUsers) := by
    rw [hset.funds]
    exact hreal
  rw [hmid, ok_bind] at hcall
  obtain ⟨_, hrem, hcall⟩ := bind_eq_ok.mp hcall
  obtain rfl : remaining = 0 := by simpa using hrem
  cases hcall
  refine ⟨mid, affectedUsers, hset.funds, hmid, rfl, fun u hchanged => hset.done u (.inr ?_)⟩
  -- a user who was not affected has no stake moved
  by_contra hnot
  have hactive := hsw.swapped.shift.userTotal u .active
  rw [if_neg (by decide), if_pos rfl, hsw.swapped.moved_eq_zero u hnot] at hactive
  exact hchanged (by omega)

/-- **Dry run and real run agree.** Both return the users of the visited items, in increasing order
and without repetitions, and leave the same maximum; both panic exactly when more than
`MAX_AFFECTED_USERS` items are visited. So the rewards of every user whose active stake
`swap_waiting_to_active_compute_rewards` changes are brought up to date before it changes. -/
theorem swap_dryRun_agrees :
    (∀ s : FundStore, s.WellFormed → ∀ (t : FundType) (direction : SwapDirection)
      (optMaxAmount : Option ℕ) (f : Entry → Option FundDescription),
      (∀ e d, e.fundType = t → f e = some d → d.fundType ≠ t) →
      let swap := s.splitConvertMaxByType () optMaxAmount t direction
        (pureFilter fun item => f item.entry) never
      let visited := Entry.visited f optMaxAmount (direction.walk (s.queue t))
      (visited.length ≤ maxAffectedUsers → ∃ s' left users,
        swap true = .ok (s, (), left, users) ∧ swap false = .ok (s', (), left, users) ∧
        users.Pairwise (· < ·) ∧ ∀ u, u ∈ users ↔ ∃ e ∈ visited, e.userId = u) ∧
      (maxAffectedUsers < visited.length →
        ∀ dryRun, swap dryRun = .error (.scPanic "affected user capacity exceeded"))) ∧
    ∀ (s s' : Ledger) (swappable : ℕ), s.FundsSound →
      s.swapWaitingToActiveComputeRewards swappable = .ok s' →
      ∃ (mid : Ledger) (users : List ℕ), mid.funds = s.funds ∧
        mid.funds.swapWaitingToActive swappable never = .ok (s'.funds, 0, users) ∧
        s' = { mid with funds := s'.funds } ∧
        ∀ u, s'.funds.userTotal u .active ≠ s.funds.userTotal u .active →
          s.loadUpdatedUserRewards u = .ok (mid.loadUserRewardData u) := by
  refine ⟨?_, fun s s' swappable h hcall => rewards_stored_before_swap h hcall⟩
  intro s hwf t direction optMaxAmount f hf swap visited
  obtain ⟨lay, hl, hco⟩ := hwf
  have hdry :=
    hl.splitConvertMaxByType_of_dryRun (t := t) hco trivial f direction optMaxAmount never
  have hreal := hl.splitConvertMaxByType hco trivial direction optMaxAmount never hf
  simp only [← hl.queue_eq (t := t) trivial, drain_visitedUsers, List.length_map] at hdry hreal
  constructor
  · intro hle
    obtain ⟨s', _, hok, -⟩ := hreal.1 hle
    refine ⟨s', _, _, hdry.1 hle, hok, pairwise_affectedUsersSortDedup _, fun u => ?_⟩
    rw [mem_affectedUsersSortDedup, List.mem_map]
  · intro hlt dryRun
    cases dryRun with
    | false => exact hreal.2 hlt
    | true => exact hdry.2 hlt

/-- Two deposits of 5, of which 7 are swapped: dry and for real, and with the rewards. -/
theorem swap_dryRun_agrees_deposits :
    let deposits := (FundStore.empty.increaseFundBalance 2 (.waiting 3) 5).increaseFundBalance 1
      (.waiting 4) 5
    let swap := deposits.splitConvertMaxByType () (some 7) .waiting .forwards
      (pureFilter fun _ => some .active) never
    (∃ s' left users, swap true = .ok (deposits, (), left, users) ∧
      swap false = .ok (s', (), left, users) ∧ users.Pairwise (· < ·) ∧
      ∀ u, u ∈ users ↔ u = 2 ∨ u = 1) ∧
    ∃ s s' mid : Ledger, s.funds = deposits ∧ s.swapWaitingToActiveComputeRewards 7 = .ok s' ∧
      s'.funds.userTotal 1 .active = 2 ∧ mid.funds = deposits ∧
      s.loadUpdatedUserRewards 1 = .ok (mid.loadUserRewardData 1) := by
  intro deposits swap
  have hwf : deposits.WellFormed :=
    (FundStore.wellFormed_empty.step (.increase _ 2 (.waiting 3) 5)).step
      (.increase _ 1 (.waiting 4) 5)
  constructor
  · obtain ⟨s', left, users, hdry, hreal, hsorted, hmem⟩ := (swap_dryRun_agrees.1 deposits hwf
      .waiting .forwards (some 7) (fun _ => some .active)
      (fun _ _ _ hd => by cases hd; decide)).1 (by decide)
    refine ⟨s', left, users, hdry, hreal, hsorted, fun u => (hmem u).trans ?_⟩
    have hvisited : (Entry.visited (fun _ => some .active) (some 7)
        (SwapDirection.forwards.walk (deposits.queue .waiting))).map Entry.userId = [2, 1] := by
      decide
    rw [← List.mem_map, hvisited]
    simp
  · have hcall : ((World.deploy 7 0 8 0 0 5 1 10).bind fun w =>
        (({ w.contract.ledger with funds := deposits } : Ledger).swapWaitingToActiveComputeRewards
          7).toOption.map fun s' => (s'.funds.userTotal 1 .active, deposits.userTotal 1 .active)) =
        some (2, 0) := by decide +kernel
    obtain ⟨w, -, hcall⟩ := Option.bind_eq_some_iff.mp hcall
    obtain ⟨s', hcall, hobs⟩ := Option.map_eq_some_iff.mp hcall
    obtain ⟨hactive, hbefore⟩ := Prod.mk.inj hobs
    obtain ⟨lay, hl, hco⟩ := hwf
    obtain ⟨mid, _, hmid, -, -, hstored⟩ := swap_dryRun_agrees.2 _ s' 7
      ⟨lay, hl.mono fun _ _ => trivial, hco⟩ (toOption_eq_some.mp hcall)
    refine ⟨_, s', mid, rfl, toOption_eq_some.mp hcall, hactive, hmid, hstored 1 ?_⟩
    rw [hactive, hbefore]
    decide

/-- A filter that accepts the first item of a list only, which it recognises by its link: the real
run makes every item the first in turn. With two deposits of 5 and a maximum of 7, the dry run
leaves 2 of the maximum and the real run nothing. -/
theorem swap_dryRun_of_link_filter :
    let s := (FundStore.empty.increaseFundBalance 2 (.waiting 3) 5).increaseFundBalance 1
      (.waiting 4) 5
    let firstOnly : FundItem → Option FundDescription := fun item =>
      if item.typeListPrev = 0 then some .active else none
    let swap := s.splitConvertMaxByType () (some 7) .waiting .forwards (pureFilter firstOnly) never
    s.WellFormed ∧ (∀ item d, firstOnly item = some d → d.fundType ≠ .waiting) ∧
      (swap true).map (fun r => r.2.2.1) = .ok (some 2) ∧
      (swap false).map (fun r => r.2.2.1) = .ok (some 0) := by
  refine ⟨(FundStore.wellFormed_empty.step (.increase _ 2 (.waiting 3) 5)).step
    (.increase _ 1 (.waiting 4) 5), fun item d hd => ?_, by decide +kernel, by decide +kernel⟩
  obtain ⟨-, hactive⟩ := Option.ite_none_right_eq_some.mp hd
  rw [← Option.some.inj hactive]
  decide

end Ledger

end Delegation
