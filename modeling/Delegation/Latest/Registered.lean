import Delegation.Latest.Consistent
import Delegation.Latest.UserRegistry

/-!
# The registry of users over a run

Every step of the contract treats the registry of users as one of the calls of `RegistryCall`
(`Step.registryCall`), so the registry is right in every state of every run. In a run from `init`
moreover no user is without an address: the entries that `updateUserAddress` fills in are missing
only for users that are older than the contract.
-/

namespace Delegation

open Outcome

namespace Ledger

variable {s s' : Ledger} {env : Env} {nonce : UInt64} {e : Event}

/-! ### Steps leave the registry alone -/

theorem registry_of_ticked (h : Ticked nonce s s') : s'.registry = s.registry := by
  cases h <;> rfl

theorem registry_of_ticks (h : Relation.ReflTransGen (Ticked nonce) s s') :
    s'.registry = s.registry := by
  induction h with
  | refl => rfl
  | tail _ ht ih => exact (registry_of_ticked ht).trans ih

theorem registry_of_rebalanced {deferred activated : ℕ → ℕ} {toDeferred toActive : ℕ}
    (h : Rebalanced s s' deferred activated toDeferred toActive) : s'.registry = s.registry := by
  rw [h.frame]
  rfl

theorem registry_of_opened {op : Operation} {orc : GlobalOpCheckpoint} (h : s.Opened op s' orc) :
    (s'.withOp orc).registry = s.registry := by
  cases h <;> rfl

/-- All acts but administrative ones and `stake`. -/
theorem registry_of_act (h : s.Act e s')
    (hkept : ∀ env call, e = .transaction env call → call.administrative = false)
    (hstake : ∀ env, e ≠ .transaction env .stake) : s'.registry = s.registry := by
  cases h with
  | answered | received | rewarded | continued => rfl
  | kept hcall => exact absurd (hkept _ _ rfl) (by simp [hcall])
  | staked => exact absurd rfl (hstake _)
  | unStaked _ hu =>
    cases hu with
    | fromWaiting => rfl
    | fromActive _ _ _ hset _ _ _ _ _ _ hre =>
      rw [registry_of_rebalanced hre, hset.frame]
      rfl
  | unBonded _ hu =>
    cases hu
    rfl
  | claimed _ hc =>
    cases hc
    rfl
  | operated _ _ _ hopened => exact registry_of_opened hopened
  | waitingCleaned _ hw => cases hw <;> rfl
  | activeCleaned _ ha =>
    obtain ⟨-, -, hset, hsw, hre⟩ := ha
    rw [registry_of_rebalanced hre, hsw.frame, hset.frame]
    rfl

theorem registryCall_of_administered {c c' : Contract} {call : Call} {issued : Option AsyncCall}
    (h : c.Administered env call c' issued) : RegistryCall c.ledger c'.ledger := by
  cases h with
  | addressesUpdated => exact .updateUserAddress _ _
  | settingWritten _ hframe =>
    refine .other ?_
    rw [hframe]
    rfl
  | _ => exact .other rfl

end Ledger

/-- A transaction does to the registry what one call does to it. -/
theorem Contract.transaction_registryCall {c c' : Contract} {env : Env} {call : Call}
    {issued : Option AsyncCall} (hc : c.ledger.Consistent)
    (h : c.transaction env call = .ok (c', issued)) :
    Ledger.RegistryCall (c.ledger.credit env.payment) c'.ledger := by
  have hendpoint : (c.credit env.payment).endpoint env call = .ok (c', issued) := by
    obtain ⟨_, -, h⟩ := bind_eq_ok.mp h
    exact h
  by_cases hadmin : call.administrative = true
  · exact Ledger.registryCall_of_administered (endpoint_administered hadmin hendpoint)
  · by_cases hstake : call = .stake
    · subst hstake
      obtain ⟨-, ledger, hcall, rfl⟩ := onLedger_eq_ok hendpoint
      exact .stake hcall
    · obtain ⟨s₁, hact, hticks, -⟩ :=
        transaction_acts hc.sound hc.dust (hc.userTotal_zero rfl) h
      have hacted : s₁.registry = c.ledger.registry := by
        refine Ledger.registry_of_act hact (fun env' call' heq => ?_) fun env' heq => ?_
        · obtain ⟨-, rfl⟩ := Event.transaction.inj heq
          simpa using hadmin
        · exact hstake (Event.transaction.inj heq).2
      exact .other ((Ledger.registry_of_ticks hticks).trans hacted)

/-- Every step does to the registry what one call does to it. -/
theorem Step.registryCall {w w' : World} {e : Event} (hc : w.contract.ledger.Consistent)
    (h : Step w e w') :
    ∃ egld, Ledger.RegistryCall (w.contract.ledger.credit egld) w'.contract.ledger := by
  cases h with
  | transaction h => exact ⟨_, Contract.transaction_registryCall hc h⟩
  | answer _ h =>
    obtain ⟨egld, hegld⟩ := Contract.answer_ledger h
    exact ⟨0, .other (by rw [hegld]; rfl)⟩
  | @answerPanic _ _ result call =>
    obtain ⟨egld, hegld⟩ := w.contract.returned_ledger call result
    exact ⟨0, .other (by rw [hegld]; rfl)⟩
  | reward | receive => exact ⟨0, .other rfl⟩

namespace Ledger

variable {s s' : Ledger}

/-! ### Addresses -/

theorem RegistryExtends.address_ne_none {u : ℕ} (h : RegistryExtends s s')
    (hu : s.userAddress u ≠ none) : s'.userAddress u ≠ none := by
  obtain ⟨a, ha⟩ := Option.ne_none_iff_exists'.mp hu
  rw [h.addresses u a ha]
  exact Option.some_ne_none a

/-- The registry is right, and no user is without an address. -/
structure Registered (s : Ledger) : Prop where
  registry : s.UserRegistry
  complete : ∀ u, u ≠ 0 → u ≤ s.numUsers → s.userAddress u ≠ none

theorem Registered.congr (h : s.Registered) (heq : s'.registry = s.registry) : s'.Registered := by
  refine ⟨h.registry.congr heq, ?_⟩
  simp only [Ledger.registry, Prod.mk.injEq] at heq
  obtain ⟨-, haddress, hnum⟩ := heq
  rw [haddress, hnum]
  exact h.complete

theorem Registered.getOrCreateUser (h : s.Registered) (address : Address) :
    (s.getOrCreateUser address).1.Registered := by
  obtain ⟨hreg, hext⟩ := h.registry.getOrCreateUser address
  refine ⟨hreg, fun u hu hle => ?_⟩
  by_cases hold : u ≤ s.numUsers
  · exact hext.address_ne_none (h.complete u hu hold)
  · -- the only new user is the one whose address was given
    revert hle
    simp only [Ledger.getOrCreateUser]
    split_ifs
    · intro hle
      change u ≤ s.numUsers + 1 at hle
      obtain rfl : u = s.numUsers + 1 := by omega
      simp
    · exact fun hle => absurd hle hold
    · exact fun hle => absurd hle hold

theorem Registered.call (h : s.Registered) (hcall : RegistryCall s s') : s'.Registered := by
  cases hcall with
  | getOrCreateUser address => exact h.getOrCreateUser address
  | stake hstake => exact (h.getOrCreateUser _).congr (registry_stake hstake)
  | updateUserAddress addresses =>
    have hup := h.registry.updateUserAddress addresses
    refine ⟨hup.userRegistry, fun u hu hle => hup.registryExtends.address_ne_none ?_⟩
    rw [updateUserAddress_frame] at hle
    exact h.complete u hu hle
  | other heq => exact h.congr heq

theorem registered_of_initial {w : World} (h : Initial w) : w.contract.ledger.Registered := by
  refine ⟨userRegistry_of_initial h, ?_⟩
  obtain ⟨hinit⟩ := h
  obtain ⟨_, -, hinit⟩ := bind_eq_ok.mp hinit
  obtain ⟨_, -, hinit⟩ := bind_eq_ok.mp hinit
  cases hinit
  intro u hu hle
  obtain rfl : u = ownerUserId := by
    change u ≤ 1 at hle
    change u = 1
    omega
  simp

end Ledger

/-- In every state of a run from `init` the registry is right and complete. -/
theorem Reachable.registered {allowed : World → Event → Prop} {w : World}
    (h : Reachable allowed w) : w.contract.ledger.Registered := by
  refine h.invariant (I := fun w => w.contract.ledger.Consistent ∧ w.contract.ledger.Registered)
    (fun _ hw => ⟨hw.consistent, Ledger.registered_of_initial hw⟩) ?_ |>.2
  rintro w w' e ⟨hc, hreg⟩ _ hs
  obtain ⟨egld, hcall⟩ := hs.registryCall hc
  have hcredit : (w.contract.ledger.credit egld).Registered := hreg.congr rfl
  exact ⟨hs.consistent hc, hcredit.call hcall⟩

end Delegation
