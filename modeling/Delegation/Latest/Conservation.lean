import Delegation.Latest.Consistent

/-!
# Conservation of stake

Over every step of every run, the stake of a user grows by what the user pays in with `stake` and
shrinks by what the user is paid by `unBond`; nothing else changes it, whoever calls.
-/

namespace Delegation

open Outcome FundStore

namespace Ledger

variable {s s' : Ledger} {e : Event} {nonce : UInt64} {u : ℕ}

/-- Ticks neither register nor pay anybody, and leave the stakes. -/
theorem Ticked.chain_stakeOf (h : Relation.ReflTransGen (Ticked nonce) s s') :
    s'.userId = s.userId ∧ s'.paidOut = s.paidOut ∧
      ∀ u, s'.funds.stakeOf u = s.funds.stakeOf u := by
  induction h with
  | refl => exact ⟨rfl, rfl, fun _ => rfl⟩
  | tail _ htick ih =>
    obtain ⟨hid, hpaid, hstake⟩ := ih
    have hlast := htick.stakeOf_eq
    rw [← hid, ← hpaid]
    refine ⟨?_, ?_, fun u => (hlast u).trans (hstake u)⟩ <;> cases htick <;> rfl

/-- What an act does to the stake of one user. -/
theorem Act.stakeOf_eq (hs : s.FundsSound) (h : s.Act e s') (u : ℕ) :
    s'.funds.stakeOf u + withdrawn s s' e u = s.funds.stakeOf u + deposited s' e u := by
  rcases h.stakeOf_cases hs with ⟨env, rfl, -, hstake⟩ | ⟨env, paid, rfl, -, hpaid, hstake⟩ |
    ⟨hne, hne', hstake⟩
  · simp only [withdrawn, deposited, hstake, eq_comm, Nat.add_zero]
  · rw [← hstake u]
    simp only [withdrawn, deposited, hpaid, Function.update_self, Nat.add_sub_cancel_left,
      eq_comm, Nat.add_zero]
  · have hwithdrawn : withdrawn s s' e u = 0 := by
      unfold withdrawn
      split
      · next env => exact absurd rfl (hne' env)
      · rfl
    have hdeposited : deposited s' e u = 0 := by
      unfold deposited
      split
      · next env => exact absurd rfl (hne env)
      · rfl
    rw [hwithdrawn, hdeposited, hstake]

/-- Neither is about the id 0, which no caller has. -/
theorem Act.zero (hs : s.FundsSound) (h : s.Act e s') :
    withdrawn s s' e 0 = 0 ∧ deposited s' e 0 = 0 := by
  rcases h.stakeOf_cases hs with ⟨env, rfl, hne, -⟩ | ⟨env, paid, rfl, hne, -, -⟩ |
    ⟨hne, hne', -⟩
  · exact ⟨rfl, if_neg hne⟩
  · exact ⟨if_neg hne, rfl⟩
  · constructor
    · unfold withdrawn
      split
      · next env => exact absurd rfl (hne' env)
      · rfl
    · unfold deposited
      split
      · next env => exact absurd rfl (hne env)
      · rfl

/-- Nobody is paid who has no id yet. -/
theorem UsersKnown.withdrawn_eq_zero (h : s.UsersKnown) (hu : s.numUsers < u) :
    withdrawn s s' e u = 0 := by
  unfold withdrawn
  split
  · next env =>
    have := h.userId_le env.caller
    exact if_neg (by omega)
  · rfl

end Ledger

open Ledger

/-- **Per-user stake conservation.** In every reachable state, whatever happens next and to whom:
the total stake of every user, by its id or through the view by address, grows by exactly what the
user pays in with `stake`, shrinks by exactly what `unBond` sends to the user, and otherwise stays.
-/
theorem userTotalStake_of_reachable {w w' : World} {e : Event}
    (h : Reachable (fun _ _ => True) w) (hstep : Step w e w') :
    (∀ u, u ≠ 0 →
      w'.contract.ledger.userTotalStake u + withdrawn w.contract.ledger w'.contract.ledger e u =
        w.contract.ledger.userTotalStake u + deposited w'.contract.ledger e u) ∧
    ∀ a, w'.contract.ledger.userStake a +
        withdrawn w.contract.ledger w'.contract.ledger e (w.contract.ledger.userId a) =
      w.contract.ledger.userStake a +
        deposited w'.contract.ledger e (w'.contract.ledger.userId a) := by
  have hc := h.consistent
  have hc' := hstep.consistent hc
  obtain ⟨s₁, hact, hticks⟩ := hstep.acts hc.sound hc.dust (hc.userTotal_zero rfl)
  obtain ⟨hid, hpaid, hstake⟩ := Ticked.chain_stakeOf hticks
  -- the terms do not see the ticks
  have hwithdrawn : ∀ u, withdrawn w.contract.ledger w'.contract.ledger e u =
      withdrawn w.contract.ledger s₁ e u := fun u => by simp only [withdrawn, hpaid]
  have hdeposited : ∀ u, deposited w'.contract.ledger e u = deposited s₁ e u := fun u => by
    simp only [deposited, hid]
  have hids : ∀ u, w'.contract.ledger.funds.stakeOf u + withdrawn w.contract.ledger
      w'.contract.ledger e u =
        w.contract.ledger.funds.stakeOf u + deposited w'.contract.ledger e u := fun u => by
    rw [hstake u, hwithdrawn, hdeposited]
    exact hact.stakeOf_eq hc.sound u
  refine ⟨fun u hu => ?_, fun a => ?_⟩
  · rw [userTotalStake_eq hc'.sound hu, userTotalStake_eq hc.sound hu]
    exact hids u
  · have hzero := hact.zero hc.sound
    have hnew := hids (w.contract.ledger.numUsers + 1)
    have hstranger := hc.users.stranger (w.contract.ledger.numUsers + 1) (.inr (by omega))
    have hunpaid : withdrawn w.contract.ledger s₁ e (w.contract.ledger.numUsers + 1) = 0 :=
      hc.users.withdrawn_eq_zero (by omega)
    simp only [userStake, hwithdrawn, hdeposited, hid] at hids hnew ⊢
    rcases hact.userId_cases a with heq | ⟨h0, heq⟩
    · rw [heq]
      by_cases h0 : w.contract.ledger.userId a = 0
      · simp [h0, hzero]
      · rw [if_neg h0, if_neg h0, userTotalStake_eq hc'.sound h0, userTotalStake_eq hc.sound h0]
        exact hids _
    · -- a new user had nothing
      have hne : w.contract.ledger.numUsers + 1 ≠ 0 := by omega
      rw [h0, heq, if_pos rfl, if_neg hne, hzero.1, userTotalStake_eq hc'.sound hne]
      omega

/-- A user stakes, unstakes and waits, and is paid what it had. -/
theorem userTotalStake_of_reachable_unBond :
    ∃ w w' : World, w'.contract.ledger.userTotalStake 2 + 5 =
      w.contract.ledger.userTotalStake 2 := by
  let events : List Event :=
    [.transaction { Env.plain 7 0 9 with payment := 5 } .stake,
      .transaction (.plain 7 0 9) (.unStake 5)]
  let last : Event := .transaction (.plain 7 9 9) .unBond
  have hpaid : (((World.deploy 1 0 2 0 0 9 1 100).bind (·.run events)).bind fun w =>
      (w.after last).map fun w' => (withdrawn w.contract.ledger w'.contract.ledger last 2,
        deposited w'.contract.ledger last 2)) = some (5, 0) := by
    decide +kernel
  obtain ⟨w, hrun, hw⟩ := Option.bind_eq_some_iff.mp hpaid
  obtain ⟨w', hafter, hw'⟩ := Option.map_eq_some_iff.mp hw
  rw [Prod.mk.injEq] at hw'
  have hreach : Reachable (fun _ _ => True) w :=
    .run (fun _ h => World.initial_deploy h) (fun _ _ _ => trivial) hrun
  have hstake := (userTotalStake_of_reachable hreach (World.step_after hafter)).1 2 (by decide)
  rw [hw'.1, hw'.2] at hstake
  exact ⟨w, w', hstake⟩

end Delegation
