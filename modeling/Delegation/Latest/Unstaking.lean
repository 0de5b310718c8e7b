import Delegation.Latest.Consistent

/-!
# Unstaking

What a successful `unStake` does to the totals of its caller and of everybody else, and which of
the checks of the endpoint can refuse a request. The three checks of the swaps on what they left
over cannot.

The last check of the endpoint is meant to keep the stake of a delegator above the minimum. It adds
the active stake of all delegators in place of that of the caller, and it is skipped when waiting
funds cover the request, so it protects nobody: `unStake_keepsMinimumStake_iff` says when the stake
that is left is large enough all the same.
-/

namespace Delegation

open Outcome FundStore

namespace Ledger

variable {s s' : Ledger} {env : Env} {amount u : ℕ}

/-! ### Accounting -/

/-- The part of a request that the waiting funds of the user cover. -/
def fromWaiting (s : Ledger) (userId amount : ℕ) : ℕ :=
  min amount (s.userStakeOfType userId .waiting)

/-- What an unstake of `amount` does to the totals of the user `u`, and of the others. -/
structure UnStakeAccounted (s s' : Ledger) (u amount : ℕ) : Prop where
  waiting : s'.userStakeOfType u .waiting + s.fromWaiting u amount = s.userStakeOfType u .waiting
  withdrawOnly : s'.userStakeOfType u .withdrawOnly =
    s.userStakeOfType u .withdrawOnly + s.fromWaiting u amount
  active : s'.userStakeOfType u .active + (amount - s.fromWaiting u amount) =
    s.userStakeOfType u .active
  unstaked : s'.userStakeOfType u .unStaked + s'.userStakeOfType u .deferredPayment =
    s.userStakeOfType u .unStaked + s.userStakeOfType u .deferredPayment +
      (amount - s.fromWaiting u amount)
  others : ∀ v, v ≠ 0 → v ≠ u →
    s'.userStakeOfType v .waiting + s'.userStakeOfType v .active =
      s.userStakeOfType v .waiting + s.userStakeOfType v .active ∧
    s'.userStakeOfType v .unStaked + s'.userStakeOfType v .deferredPayment =
      s.userStakeOfType v .unStaked + s.userStakeOfType v .deferredPayment ∧
    s'.userStakeOfType v .withdrawOnly = s.userStakeOfType v .withdrawOnly

/-- What waiting funds cover becomes withdrawable, and the rest is unstaked. Replacing it by
waiting funds of others leaves the sums in which the totals are stated. -/
theorem UnStaked.accounted (h : s.UnStaked env amount s') :
    s.UnStakeAccounted s' (s.userId env.caller) amount := by
  have hswap : ∀ {funds funds' : FundStore} {src dst : FundType}
      {g : FundDescription → Option FundDescription} {moved : ℕ → ℕ} {x : ℕ},
      FundStore.Swapped Relied funds funds' src dst g (· = s.userId env.caller) moved x →
      ∀ v, v ≠ s.userId env.caller → ∀ t, funds'.userTotal v t = funds.userTotal v t := by
    intro _ _ _ _ _ _ _ hsw v hv t
    have hshift := hsw.shift.userTotal v t
    simpa only [hsw.moved_eq_zero v hv, ite_self, add_zero] using hshift
  cases h with
  | @fromWaiting funds moved _ hid hsw hmoved =>
    have hself := fun t => hsw.shift.userTotal (s.userId env.caller) t
    have hwaiting := hself .waiting
    simp only [hmoved, if_true, reduceCtorEq, if_false, add_zero] at hwaiting
    have hm : s.fromWaiting (s.userId env.caller) amount = amount := by
      rw [Ledger.fromWaiting, userStakeOfType_of_ne hid]
      omega
    constructor
    · simp only [hm, userStakeOfType_of_ne hid]
      exact hwaiting
    · have hwithdraw := hself .withdrawOnly
      simp only [hmoved, if_true, reduceCtorEq, if_false, add_zero] at hwithdraw
      simp only [hm, userStakeOfType_of_ne hid]
      exact hwithdraw
    · have hactive := hself .active
      simp only [reduceCtorEq, if_false, add_zero] at hactive
      simp only [hm, userStakeOfType_of_ne hid]
      omega
    · have hunstaked := hself .unStaked
      have hdeferred := hself .deferredPayment
      simp only [reduceCtorEq, if_false, add_zero] at hunstaked hdeferred
      simp only [hm, userStakeOfType_of_ne hid]
      omega
    · intro v hv0 hv
      simp only [userStakeOfType_of_ne hv0, hswap hsw v hv, and_self]
  | @fromActive funds₁ funds₂ moved₁ moved₂ deferred activated amount₁ amount₂ _ _ mid _ _ hid hsw₁
      hset hsw₂ hmoved₁ hmoved₂ hall hadd hpos hre =>
    have hm : s.fromWaiting (s.userId env.caller) amount = amount₁ := by
      rw [Ledger.fromWaiting, userStakeOfType_of_ne hid]
      omega
    have hrest : amount - amount₁ = amount₂ := by omega
    have h₁ := fun t => hsw₁.shift.userTotal (s.userId env.caller) t
    have h₂ := fun t => hsw₂.shift.userTotal (s.userId env.caller) t
    have h₃ := fun v t => hre.userTotal v t
    simp only [hmoved₁] at h₁
    simp only [hmoved₂] at h₂
    simp only at h₃
    -- no waiting funds of the caller are left to activate
    have hnone : activated (s.userId env.caller) = 0 := by
      have hw₁ := h₁ .waiting
      have hw₂ := h₂ .waiting
      have hw₃ := h₃ (s.userId env.caller) .waiting
      simp only [reduceCtorEq, if_true, if_false, add_zero] at hw₁ hw₂ hw₃
      omega
    have hself : ∀ t, s'.funds.userTotal (s.userId env.caller) t +
        (if t = .waiting then amount₁ else 0) + (if t = .active then amount₂ else 0) +
        (if t = .unStaked then deferred (s.userId env.caller) else 0) =
          s.funds.userTotal (s.userId env.caller) t +
            (if t = .withdrawOnly then amount₁ else 0) + (if t = .unStaked then amount₂ else 0) +
            if t = .deferredPayment then deferred (s.userId env.caller) else 0 := by
      intro t
      have ht₁ := h₁ t
      have ht₂ := h₂ t
      have ht₃ := h₃ (s.userId env.caller) t
      rw [hnone] at ht₃
      cases t <;> simp only [reduceCtorEq, if_true, if_false, add_zero] at ht₁ ht₂ ht₃ ⊢ <;> omega
    have hwaiting := hself .waiting
    have hwithdraw := hself .withdrawOnly
    have hactive := hself .active
    have hunstaked := hself .unStaked
    have hdeferred := hself .deferredPayment
    simp only [reduceCtorEq, if_true, if_false, add_zero]
      at hwaiting hwithdraw hactive hunstaked hdeferred
    constructor
    · simp only [hm, userStakeOfType_of_ne hid]
      omega
    · simp only [hm, userStakeOfType_of_ne hid]
      omega
    · simp only [hm, hrest, userStakeOfType_of_ne hid]
      omega
    · simp only [hm, hrest, userStakeOfType_of_ne hid]
      omega
    · intro v hv0 hv
      have hbefore : ∀ t, funds₂.userTotal v t = s.funds.userTotal v t := fun t =>
        (hswap hsw₂ v hv t).trans (hswap hsw₁ v hv t)
      have hv₃ := fun t => h₃ v t
      simp only [hbefore] at hv₃
      have hw := hv₃ .waiting
      have ha := hv₃ .active
      have hu := hv₃ .unStaked
      have hd := hv₃ .deferredPayment
      have ho := hv₃ .withdrawOnly
      simp only [reduceCtorEq, if_true, if_false, add_zero] at hw ha hu hd ho
      simp only [userStakeOfType_of_ne hv0]
      omega

/-! ### Refusals -/

/-- What the swaps of `unStake` say when something is left over. -/
def leftoverErrors : List String :=
  ["error converting Active to UnStaked", "error swapping unstaked to deferred payment",
    "error swapping waiting to active"]

theorem unStake_ne_leftover (h : s.FundsSound) (env : Env) (amount : ℕ) {msg : String}
    (hmsg : msg ∈ leftoverErrors) : s.unStake env amount ≠ .error (.scPanic msg) := fun herr => by
  have hfails := (unStake_spec h env amount).of_error herr
  simp only [leftoverErrors, List.mem_cons, List.not_mem_nil, or_false] at hmsg
  rcases hmsg with rfl | rfl | rfl <;> exact hfails.ne_scPanic (by decide) (by decide) rfl

/-! ### The minimum stake -/

/-- `getUnStakeable` -/
def unStakeable (s : Ledger) (userAddress : Address) : ℕ :=
  if s.userId userAddress = 0 then 0
  else s.userStakeOfType (s.userId userAddress) .waiting +
    s.userStakeOfType (s.userId userAddress) .active

/-- What the last check of `unStake` is about: no stake, or at least the minimum. -/
def KeepsMinimumStake (s : Ledger) (userAddress : Address) : Prop :=
  s.unStakeable userAddress = 0 ∨ s.minStake ≤ s.unStakeable userAddress

theorem UnStaked.userId_eq (h : s.UnStaked env amount s') :
    s'.userId = s.userId ∧ s.userId env.caller ≠ 0 := by
  cases h with
  | fromWaiting _ hid => exact ⟨rfl, hid⟩
  | fromActive _ hid _ hset _ _ _ _ _ _ hre =>
    refine ⟨?_, hid⟩
    rw [hre.frame, hset.frame]

/-- The stake of the caller goes down by the amount. -/
theorem UnStaked.unStakeable_add (h : s.UnStaked env amount s') :
    s'.unStakeable env.caller + amount = s.unStakeable env.caller := by
  obtain ⟨hids, hid⟩ := h.userId_eq
  have hacc := h.accounted
  have hwaiting := hacc.waiting
  have hactive := hacc.active
  have hle : s.fromWaiting (s.userId env.caller) amount ≤ amount := min_le_left _ _
  simp only [unStakeable, hids, if_neg hid]
  omega

end Ledger

open Ledger

/-- **Exact accounting of `unStake`.** In every reachable state, a successful request of `amount`
takes what it can from the waiting funds of the caller and the rest from the active ones, and only
moves the funds of others between the types that stand for one another. The checks on what the swaps
leave over never refuse a request. -/
theorem unStake_accounted_of_reachable {w : World} (h : Reachable (fun _ _ => True) w) (env : Env)
    (amount : ℕ) :
    (∀ s', w.contract.ledger.unStake env amount = .ok s' →
      w.contract.ledger.UnStakeAccounted s' (w.contract.ledger.userId env.caller) amount) ∧
    ∀ msg ∈ leftoverErrors, w.contract.ledger.unStake env amount ≠ .error (.scPanic msg) := by
  have hs := h.consistent.sound
  exact ⟨fun s' hok => ((unStake_spec hs env amount).of_ok hok).accounted,
    fun msg hmsg => unStake_ne_leftover hs env amount hmsg⟩

/-- A user with 5 waiting and 10 active unstakes 12. -/
theorem unStake_accounted_of_reachable_both :
    ∃ (w : World) (s' : Ledger), w.contract.ledger.userStakeOfType 2 .waiting = 5 ∧
      w.contract.ledger.userStakeOfType 2 .active = 10 ∧
      w.contract.ledger.unStake (.plain 7 4 9) 12 = .ok s' ∧
      w.contract.ledger.UnStakeAccounted s' 2 12 := by
  let events : List Event := [.transaction { Env.plain 7 0 9 with payment := 15 } .stake]
  have hrun : ((World.deploy 1 0 2 0 0 9 1 10).bind (·.run events)).bind (fun w =>
      (w.contract.ledger.unStake (.plain 7 4 9) 12).toOption.map fun _ =>
        (w.contract.ledger.userStakeOfType 2 .waiting, w.contract.ledger.userStakeOfType 2 .active,
          w.contract.ledger.userId 7)) = some (5, 10, 2) := by
    decide +kernel
  obtain ⟨w, hw, hcall⟩ := Option.bind_eq_some_iff.mp hrun
  obtain ⟨s', hs', hobs⟩ := Option.map_eq_some_iff.mp hcall
  simp only [Prod.mk.injEq] at hobs
  obtain ⟨hwaiting, hactive, hid⟩ := hobs
  have hreach : Reachable (fun _ _ => True) w :=
    .run (fun _ h => World.initial_deploy h) (fun _ _ _ => trivial) hw
  have hok := toOption_eq_some.mp hs'
  have hacc := (unStake_accounted_of_reachable hreach (.plain 7 4 9) 12).1 s' hok
  have hcaller : w.contract.ledger.userId (Env.plain 7 4 9).caller = 2 := hid
  rw [hcaller] at hacc
  exact ⟨w, s', hwaiting, hactive, hok, hacc⟩

/-- **When an unstake leaves enough.** In every reachable state, a successful `unStake` leaves its
caller no stake or the minimum exactly when it takes everything or leaves the minimum: no check of
the endpoint sees to it. -/
theorem unStake_keepsMinimumStake_iff {w : World} (h : Reachable (fun _ _ => True) w) {env : Env}
    {amount : ℕ} {s' : Ledger} (hok : w.contract.ledger.unStake env amount = .ok s') :
    s'.KeepsMinimumStake env.caller ↔ amount = w.contract.ledger.unStakeable env.caller ∨
      w.contract.ledger.minStake + amount ≤ w.contract.ledger.unStakeable env.caller := by
  have hun := (unStake_spec h.consistent.sound env amount).of_ok hok
  have hadd := hun.unStakeable_add
  have hmin : s'.minStake = w.contract.ledger.minStake :=
    congrArg Settings.minStake hun.ordinary.settings
  simp only [KeepsMinimumStake, hmin]
  omega

/-- A delegator with 30 unstakes 20 of them, under a minimum of 10. -/
theorem unStake_keepsMinimumStake_iff_keeps :
    ∃ s' : Ledger, s'.unStakeable 7 = 10 ∧ s'.KeepsMinimumStake 7 := by
  let events : List Event := [.transaction { Env.plain 7 0 9 with payment := 30 } .stake]
  have hrun : ((World.deploy 1 0 2 0 0 9 10 100).bind (·.run events)).bind (fun w =>
      (w.contract.ledger.unStake (.plain 7 0 9) 20).toOption.map fun s' =>
        (w.contract.ledger.minStake, w.contract.ledger.unStakeable 7, s'.unStakeable 7)) =
        some (10, 30, 10) := by
    decide +kernel
  obtain ⟨w, hw, hcall⟩ := Option.bind_eq_some_iff.mp hrun
  obtain ⟨s', hs', hobs⟩ := Option.map_eq_some_iff.mp hcall
  simp only [Prod.mk.injEq] at hobs
  obtain ⟨hmin, hbefore, hafter⟩ := hobs
  have hreach : Reachable (fun _ _ => True) w :=
    .run (fun _ h => World.initial_deploy h) (fun _ _ _ => trivial) hw
  have hiff := unStake_keepsMinimumStake_iff hreach (toOption_eq_some.mp hs')
  refine ⟨s', hafter, hiff.mpr (.inr ?_)⟩
  have hcaller : w.contract.ledger.unStakeable (Env.plain 7 0 9).caller = 30 := hbefore
  omega

/-- **A stake below the minimum**: with 50 of the owner active, a delegator with 15 unstakes 10 of
them and keeps 5, under a minimum of 10. -/
theorem not_unStake_keepsMinimumStake :
    ¬ ∀ (w : World) (env : Env) (amount : ℕ) (s' : Ledger), Reachable (fun _ _ => True) w →
      w.contract.ledger.unStake env amount = .ok s' → s'.KeepsMinimumStake env.caller := by
  intro hall
  let events : List Event :=
    [.transaction { Env.plain 1 0 9 with payment := 50 } .stake,
      .transaction { Env.plain 7 0 9 with payment := 15 } .stake]
  have hrun : ((World.deploy 1 0 2 0 0 9 10 100).bind (·.run events)).bind (fun w =>
      (w.contract.ledger.unStake (.plain 7 0 9) 10).toOption.map fun s' =>
        (s'.minStake, s'.unStakeable 7)) = some (10, 5) := by
    decide +kernel
  obtain ⟨w, hw, hcall⟩ := Option.bind_eq_some_iff.mp hrun
  obtain ⟨s', hs', hobs⟩ := Option.map_eq_some_iff.mp hcall
  simp only [Prod.mk.injEq] at hobs
  obtain ⟨hmin, hleft⟩ := hobs
  have hreach : Reachable (fun _ _ => True) w :=
    .run (fun _ h => World.initial_deploy h) (fun _ _ _ => trivial) hw
  have hkeeps := hall w (.plain 7 0 9) 10 s' hreach (toOption_eq_some.mp hs')
  have hcaller : s'.unStakeable (Env.plain 7 0 9).caller = 5 := hleft
  simp only [KeepsMinimumStake] at hkeeps
  omega

end Delegation
