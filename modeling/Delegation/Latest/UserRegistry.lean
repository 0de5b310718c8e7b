import Delegation.Lib.Numbering
import Delegation.Latest.System

/-!
# The registry of users

A user is known by an id, and all that is kept about the user is kept under it. Ids are given out by
`get_or_create_user`, one after the other. The table from ids back to addresses is younger than the
ids: users from genesis may have no entry, and `get_or_create_user` and `updateUserAddress` fill in
the missing ones, the latter for anybody who asks.

`UserRegistry` is the invariant: the ids are a numbering of the known addresses, and every entry of
the table is right. It survives all calls that touch the registry (`RegistryCall.userRegistry`), and
along them no id and no entry ever changes.
-/

namespace Delegation

open Outcome

namespace Ledger

variable {s s' : Ledger} {env : Env} {u swappable : ℕ}

/-! ### The parts of the registry -/

/-- `userIdsWithoutAddress` -/
def userIdsWithoutAddress (s : Ledger) : List ℕ :=
  (List.range' 1 s.numUsers).filter fun userId => s.userAddress userId = none

/-- What the registry consists of. -/
def registry (s : Ledger) : (Address → ℕ) × (ℕ → Option Address) × ℕ :=
  (s.userId, s.userAddress, s.numUsers)

theorem registry_computeOneUserReward (h : s.computeOneUserReward u = .ok s') :
    s'.registry = s.registry := by
  obtain ⟨data, -, h⟩ := bind_eq_ok.mp h
  cases h
  rfl

theorem registry_swapWaitingToActiveComputeRewards
    (h : s.swapWaitingToActiveComputeRewards swappable = .ok s') : s'.registry = s.registry := by
  simp only [swapWaitingToActiveComputeRewards] at h
  obtain ⟨⟨funds, affectedUsers, remaining⟩, -, h⟩ := bind_eq_ok.mp h
  obtain ⟨_, -, h⟩ := bind_eq_ok.mp h
  obtain ⟨s₁, hone, h⟩ := bind_eq_ok.mp h
  obtain ⟨s₂, hall, h⟩ := bind_eq_ok.mp h
  obtain ⟨_, -, h⟩ := bind_eq_ok.mp h
  obtain ⟨_, -, h⟩ := bind_eq_ok.mp h
  have hfold : Spec (affectedUsers.foldlM computeAffectedUserReward s₁)
      (fun s₂ => s₂.registry = s₁.registry) (fun _ => True) :=
    Spec.foldlM (J := fun _ s₂ => s₂.registry = s₁.registry) rfl fun _ v s₂ _ hs₂ =>
      Spec.bind (spec_require fun _ => trivial) fun _ _ =>
        Spec.of_forall_ok fun _ hs₃ => (registry_computeOneUserReward hs₃).trans hs₂
  have hrewards := (hfold.of_ok hall).trans (registry_computeOneUserReward hone)
  cases h
  exact hrewards

/-- Replacing unstaked funds does not touch the registry. -/
theorem registry_useWaitingToReplaceUnstaked (h : s.useWaitingToReplaceUnstaked = .ok s') :
    s'.registry = s.registry := by
  simp only [useWaitingToReplaceUnstaked] at h
  split_ifs at h with hboot hzero
  · simp only [useWaitingInBootstrapMode] at h
    obtain ⟨_, -, h⟩ := bind_eq_ok.mp h
    obtain ⟨_, -, h⟩ := bind_eq_ok.mp h
    obtain ⟨_, -, h⟩ := bind_eq_ok.mp h
    obtain ⟨_, -, h⟩ := bind_eq_ok.mp h
    cases h
    rfl
  · cases h
    rfl
  · obtain ⟨_, -, h⟩ := bind_eq_ok.mp h
    obtain ⟨_, -, h⟩ := bind_eq_ok.mp h
    exact (registry_swapWaitingToActiveComputeRewards h).trans rfl

/-- What `stake` does to the registry is what `get_or_create_user` does. -/
theorem registry_stake (h : s.stake env = .ok s') :
    s'.registry = (s.getOrCreateUser env.caller).1.registry := by
  obtain ⟨_, -, h⟩ := bind_eq_ok.mp h
  obtain ⟨_, -, h⟩ := bind_eq_ok.mp h
  obtain ⟨_, -, h⟩ := bind_eq_ok.mp h
  simp only [processStake] at h
  obtain ⟨_, -, h⟩ := bind_eq_ok.mp h
  exact (registry_useWaitingToReplaceUnstaked h).trans rfl

/-! ### The invariant -/

/-- The ids are a numbering of the known addresses, and the stored addresses agree with it. -/
structure UserRegistry (s : Ledger) : Prop where
  numbering : Ids.Numbering s.userId s.numUsers
  userId_of_address : ∀ u a, s.userAddress u = some a → u ≠ 0 ∧ s.userId a = u

/-- How the registry goes on: ids and stored addresses stay. -/
structure RegistryExtends (s s' : Ledger) : Prop where
  ids : Ids.Extends s.userId s.numUsers s'.userId s'.numUsers
  addresses : ∀ u a, s.userAddress u = some a → s'.userAddress u = some a

theorem RegistryExtends.refl (s : Ledger) : RegistryExtends s s := ⟨.refl _ _, fun _ _ h => h⟩

theorem RegistryExtends.trans {s'' : Ledger} (h : RegistryExtends s s')
    (h' : RegistryExtends s' s'') : RegistryExtends s s'' :=
  ⟨h.ids.trans h'.ids, fun u a ha => h'.addresses u a (h.addresses u a ha)⟩

/-- Both depend on nothing but the registry. -/
theorem UserRegistry.congr (h : s.UserRegistry) (heq : s'.registry = s.registry) :
    s'.UserRegistry := by
  simp only [registry, Prod.mk.injEq] at heq
  obtain ⟨hid, haddress, hnum⟩ := heq
  exact ⟨by rw [hid, hnum]; exact h.numbering, by rw [hid, haddress]; exact h.userId_of_address⟩

theorem RegistryExtends.congr {s'' : Ledger} (h : RegistryExtends s s')
    (heq : s''.registry = s'.registry) : RegistryExtends s s'' := by
  simp only [registry, Prod.mk.injEq] at heq
  obtain ⟨hid, haddress, hnum⟩ := heq
  exact ⟨by rw [hid, hnum]; exact h.ids, by rw [haddress]; exact h.addresses⟩

/-! ### Filling in an address -/

/-- The address of a known user is stored under the id. -/
theorem UserRegistry.fill (h : s.UserRegistry) {address : Address} (hid : s.userId address ≠ 0) :
    UserRegistry { s with
      userAddress := Function.update s.userAddress (s.userId address) (some address) } := by
  refine ⟨h.numbering, fun u a ha => ?_⟩
  simp only [Function.update_apply] at ha
  split_ifs at ha with hu
  · cases ha
    exact ⟨hu ▸ hid, hu.symm⟩
  · exact h.userId_of_address u a ha

/-- An entry that is missing is filled in; the others stay. -/
theorem registryExtends_fill {address : Address}
    (hnone : s.userAddress (s.userId address) = none) :
    RegistryExtends s { s with
      userAddress := Function.update s.userAddress (s.userId address) (some address) } := by
  refine ⟨.refl _ _, fun u a ha => (Function.update_of_ne ?_ _ _).trans ha⟩
  rintro rfl
  rw [hnone] at ha
  cases ha

/-! ### The operations -/

/-- **`get_or_create_user`**: a new address gets the next id, a known one keeps its own, and either
way the address is stored. -/
theorem UserRegistry.getOrCreateUser (h : s.UserRegistry) (address : Address) :
    (s.getOrCreateUser address).1.UserRegistry ∧
      RegistryExtends s (s.getOrCreateUser address).1 := by
  unfold Ledger.getOrCreateUser
  simp only
  split_ifs with hnew hnone
  · have hfree : s.userAddress (s.numUsers + 1) = none := by
      rcases haddress : s.userAddress (s.numUsers + 1) with _ | a
      · rfl
      · -- a stored address has an id that was given out
        have hle := h.numbering.le_last a
        have hid := (h.userId_of_address _ a haddress).2
        omega
    refine ⟨⟨h.numbering.register hnew, fun u a ha => ?_⟩, .register hnew, fun u a ha => ?_⟩
    · simp only [Function.update_apply] at ha ⊢
      split_ifs at ha with hu
      · cases ha
        simp [hu]
      · obtain ⟨hne, hid⟩ := h.userId_of_address u a ha
        have haddress : a ≠ address := by
          rintro rfl
          exact hne (hid.symm.trans hnew)
        exact ⟨hne, (if_neg haddress).trans hid⟩
    · refine (Function.update_of_ne ?_ _ _).trans ha
      rintro rfl
      rw [hfree] at ha
      cases ha
  · exact ⟨h.fill hnew, registryExtends_fill hnone⟩
  · exact ⟨h, .refl s⟩

/-- What is true in the middle of `update_user_address`, after some of the addresses: everything is
counted once, and the known ones have their entries. -/
structure Updated (s : Ledger) (done : List Address) (c : Ledger × ℕ × ℕ × ℕ) : Prop where
  userRegistry : c.1.UserRegistry
  registryExtends : RegistryExtends s c.1
  userId : c.1.userId = s.userId
  count : c.2.1 + c.2.2.1 + c.2.2.2 = done.length
  filled : ∀ a ∈ done, s.userId a ≠ 0 → c.1.userAddress (s.userId a) = some a

/-- One address of `updateUserAddress`. -/
theorem Updated.updateOne {done : List Address} {c : Ledger × ℕ × ℕ × ℕ} (h : Updated s done c)
    (address : Address) : Updated s (done ++ [address]) (updateOneUserAddress c address) := by
  obtain ⟨s₁, numUpdated, numNotUpdated, numNotFound⟩ := c
  obtain ⟨hreg, hext, hid, hcount, hfilled⟩ := h
  simp only at hreg hext hid hcount hfilled
  -- the entries of before stay, so only the last address is new
  have hstep : ∀ s₂ : Ledger, RegistryExtends s₁ s₂ →
      (s.userId address ≠ 0 → s₂.userAddress (s.userId address) = some address) →
      ∀ a ∈ done ++ [address], s.userId a ≠ 0 → s₂.userAddress (s.userId a) = some a := by
    intro s₂ hs₂ hlast a ha hne
    rcases List.mem_append.mp ha with ha | ha
    · exact hs₂.addresses _ a (hfilled a ha hne)
    · obtain rfl := List.mem_singleton.mp ha
      exact hlast hne
  unfold updateOneUserAddress
  simp only
  split_ifs with hpos hnone
  · have hnew := registryExtends_fill hnone
    refine ⟨hreg.fill hpos.ne', hext.trans hnew, hid, ?_, hstep _ hnew fun _ => ?_⟩
    · simp only [List.length_append, List.length_singleton]
      omega
    · rw [← hid]
      exact Function.update_self _ _ _
  · refine ⟨hreg, hext, hid, ?_, hstep s₁ (.refl s₁) fun _ => ?_⟩
    · simp only [List.length_append, List.length_singleton]
      omega
    · obtain ⟨a, ha⟩ := Option.ne_none_iff_exists'.mp hnone
      have hown := (hreg.userId_of_address _ a ha).2
      obtain rfl := hreg.numbering.injective a address (hown ▸ hpos.ne') hown
      rw [← hid]
      exact ha
  · refine ⟨hreg, hext, hid, ?_, hstep s₁ (.refl s₁) fun hne => ?_⟩
    · simp only [List.length_append, List.length_singleton]
      omega
    · rw [hid] at hpos
      omega

/-- **`updateUserAddress`** with any list of addresses. -/
theorem UserRegistry.updateUserAddress (h : s.UserRegistry) (addresses : List Address) :
    Updated s addresses (s.updateUserAddress addresses) := by
  have hrun : ∀ (rest done : List Address) (c : Ledger × ℕ × ℕ × ℕ), Updated s done c →
      Updated s (done ++ rest) (rest.foldl updateOneUserAddress c) := by
    intro rest
    induction rest with
    | nil =>
      intro done c hc
      rwa [List.append_nil]
    | cons address rest ih =>
      intro done c hc
      have := ih (done ++ [address]) _ (hc.updateOne address)
      rwa [List.append_assoc] at this
  exact hrun addresses [] (s, 0, 0, 0)
    ⟨h, .refl s, rfl, rfl, fun _ ha => absurd ha List.not_mem_nil⟩

/-! ### Histories of the registry -/

/-- A call that touches the registry, or anything else that leaves it alone. -/
inductive RegistryCall : Ledger → Ledger → Prop
  | getOrCreateUser (s : Ledger) (address : Address) : RegistryCall s (s.getOrCreateUser address).1
  | stake {s s' : Ledger} {env : Env} (h : s.stake env = .ok s') : RegistryCall s s'
  | updateUserAddress (s : Ledger) (addresses : List Address) :
      RegistryCall s (s.updateUserAddress addresses).1
  | other {s s' : Ledger} (h : s'.registry = s.registry) : RegistryCall s s'

/-- One call keeps the invariant, and what was registered. -/
theorem RegistryCall.userRegistry (h : RegistryCall s s') (hs : s.UserRegistry) :
    s'.UserRegistry ∧ RegistryExtends s s' := by
  cases h with
  | getOrCreateUser address => exact hs.getOrCreateUser address
  | stake hcall =>
    obtain ⟨hreg, hext⟩ := hs.getOrCreateUser _
    exact ⟨hreg.congr (registry_stake hcall), hext.congr (registry_stake hcall)⟩
  | updateUserAddress addresses =>
    have hup := hs.updateUserAddress addresses
    exact ⟨hup.userRegistry, hup.registryExtends⟩
  | other heq => exact ⟨hs.congr heq, (RegistryExtends.refl s).congr heq⟩

/-- So does every history. -/
theorem userRegistry_of_history (h : Relation.ReflTransGen RegistryCall s s')
    (hs : s.UserRegistry) : s'.UserRegistry ∧ RegistryExtends s s' := by
  induction h with
  | refl => exact ⟨hs, .refl s⟩
  | tail _ hcall ih =>
    obtain ⟨hreg, hext⟩ := hcall.userRegistry ih.1
    exact ⟨hreg, ih.2.trans hext⟩

/-- The owner is user 1. -/
theorem userRegistry_of_initial {w : World} (h : Initial w) : w.contract.ledger.UserRegistry := by
  obtain ⟨hinit⟩ := h
  obtain ⟨_, -, hinit⟩ := bind_eq_ok.mp hinit
  obtain ⟨_, -, hinit⟩ := bind_eq_ok.mp hinit
  cases hinit
  refine ⟨Ids.Numbering.empty.register rfl, fun u a ha => ?_⟩
  simp only [Function.update_apply] at ha ⊢
  split_ifs at ha with hu
  · cases ha
    simp [hu, ownerUserId]

/-- **The user registry is a bijection.** From `init`, or from any registry in which the stored
addresses agree with the ids, every history of `get_or_create_user`, `stake` and `updateUserAddress`
keeps the ids a bijection between the known addresses and `1..=num_users`, never changes an id or a
stored address, and stores under an id nothing but the one address that has it. `updateUserAddress`
counts every address it is given once and leaves no known one of them without its entry, so that
`userIdsWithoutAddress` shows none of them. -/
theorem userRegistry_bijection (hs : (∃ w, Initial w ∧ w.contract.ledger = s) ∨ s.UserRegistry)
    (h : Relation.ReflTransGen RegistryCall s s') :
    Set.BijOn s'.userId {a | s'.userId a ≠ 0} (Set.Icc 1 s'.numUsers) ∧
    (∀ a, s.userId a ≠ 0 → s'.userId a = s.userId a) ∧
    (∀ u a, s'.userAddress u = some a → ∀ b, s'.userId b = u ↔ b = a) ∧
    (∀ u a, s.userAddress u = some a → s'.userAddress u = some a) ∧
    ∀ addresses, ∃ s'' numUpdated numNotUpdated numNotFound,
      s'.updateUserAddress addresses = (s'', numUpdated, numNotUpdated, numNotFound) ∧
      numUpdated + numNotUpdated + numNotFound = addresses.length ∧
      (∀ a ∈ addresses, s'.userId a ≠ 0 → s''.userAddress (s'.userId a) = some a) ∧
      ∀ a ∈ addresses, s'.userId a ∉ s''.userIdsWithoutAddress := by
  have hreg : s.UserRegistry := by
    rcases hs with ⟨w, hinit, rfl⟩ | hs
    · exact userRegistry_of_initial hinit
    · exact hs
  obtain ⟨hreg', hext⟩ := userRegistry_of_history h hreg
  refine ⟨hreg'.numbering.bijOn, hext.ids.kept, fun u a ha b => ?_, hext.addresses,
    fun addresses => ?_⟩
  · obtain ⟨hne, hid⟩ := hreg'.userId_of_address u a ha
    constructor
    · rintro rfl
      exact (hreg'.numbering.injective a b (hid ▸ hne) hid).symm
    · rintro rfl
      exact hid
  · have hup := hreg'.updateUserAddress addresses
    refine ⟨_, _, _, _, rfl, hup.count, hup.filled, fun a ha hmem => ?_⟩
    obtain ⟨hrange, hnone⟩ := List.mem_filter.mp hmem
    rw [List.mem_range'_1] at hrange
    have hsome := hup.filled a ha (by omega)
    exact Option.some_ne_none _ (hsome.symm.trans (of_decide_eq_true hnone))

/-- A user left over from genesis, without an address in the table: another one stakes, and then the
first asks for an update twice, together with a stranger. -/
theorem userRegistry_bijection_genesis :
    ∃ s s' : Ledger, s.userId 7 = 2 ∧ s.userAddress 2 = none ∧
      Relation.ReflTransGen RegistryCall s s' ∧ s'.userId 7 = 2 ∧ s'.userId 8 = 3 ∧
      Set.BijOn s'.userId {a | s'.userId a ≠ 0} (Set.Icc 1 s'.numUsers) ∧
      ∃ s'', s'.updateUserAddress [7, 9, 7] = (s'', 1, 1, 1) ∧ s''.userAddress 2 = some 7 := by
  let genesis (s : Ledger) : Ledger :=
    { s with userId := Function.update s.userId 7 (s.numUsers + 1), numUsers := s.numUsers + 1 }
  have hrun : (World.deploy 1 0 2 0 0 9 1 100).map (fun w =>
      let s := genesis w.contract.ledger
      let s' := (s.getOrCreateUser 8).1
      ([w.contract.ledger.userId 7, s.userId 7, s'.userId 8], s.userAddress 2,
        (s'.updateUserAddress [7, 9, 7]).2)) = some ([0, 2, 3], none, 1, 1, 1) := by
    decide +kernel
  obtain ⟨w, hw, hobs⟩ := Option.map_eq_some_iff.mp hrun
  simp only [Prod.mk.injEq, List.cons.injEq, and_true] at hobs
  obtain ⟨⟨hunknown, hseven, height⟩, hnone, hcount⟩ := hobs
  have hinit := userRegistry_of_initial (World.initial_deploy hw)
  have hreg : (genesis w.contract.ledger).UserRegistry := by
    refine ⟨hinit.numbering.register hunknown, fun u a ha => ?_⟩
    obtain ⟨hne, hid⟩ := hinit.userId_of_address u a ha
    refine ⟨hne, (Function.update_of_ne ?_ _ _).trans hid⟩
    rintro rfl
    exact hne (hid.symm.trans hunknown)
  have hcalls : Relation.ReflTransGen RegistryCall (genesis w.contract.ledger)
      ((genesis w.contract.ledger).getOrCreateUser 8).1 :=
    .single (.getOrCreateUser _ 8)
  obtain ⟨hbij, hkept, -, -, hall⟩ := userRegistry_bijection (.inr hreg) hcalls
  have hseven' := (hkept 7 (by rw [hseven]; decide)).trans hseven
  obtain ⟨s'', _, _, _, hupdate, -, hfilled, -⟩ := hall [7, 9, 7]
  have hfilled := hfilled 7 List.mem_cons_self (by rw [hseven']; decide)
  rw [hseven'] at hfilled
  refine ⟨_, _, hseven, hnone, hcalls, hseven', height, hbij, s'', ?_, hfilled⟩
  rw [hupdate] at hcount ⊢
  obtain ⟨rfl, rfl, rfl⟩ : _ ∧ _ ∧ _ := by simpa using hcount
  rfl

end Ledger

end Delegation
