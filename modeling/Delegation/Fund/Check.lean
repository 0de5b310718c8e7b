import Delegation.Fund.Views

/-!
# The consistency check of the tests

The tests of the fund module end with `check_consistency`, which goes through every list of a store
from its first item, compares each link back with the item it came from, the last id with the item
that has no successor, and the sum of the balances with the cached total.

`checkConsistency_iff` says what the check is worth: it accepts exactly the stores whose lists are
doubly linked lists with the right total. Every well formed store is one
(`WellFormed.checkConsistency`).
-/

namespace Delegation

open Outcome Loop DoublyLinked

/-- `FundType::ALL_TYPES` -/
def FundType.allTypes : List FundType :=
  [.withdrawOnly, .waiting, .active, .unStaked, .deferredPayment]

namespace FundStore

/-! ### The check -/

/-- The loop body of `check_consistency_for_type`, on the sum so far and the id before. -/
def checkTypeItem (s : FundStore) (typeList : FundsListInfo) (c : ℕ × ℕ) (id : ℕ) :
    Exec (ℕ × ℕ) := do
  let fundItem := s.fundById id
  require (fundItem.typeListPrev = c.2) "type list inconsistency: bad prev"
  require (fundItem.typeListNext = 0 → typeList.last = id) "type list inconsistency: bad last"
  return (c.1 + fundItem.balance, id)

/-- `check_consistency_for_type` -/
def checkConsistencyForType (s : FundStore) (fundType : FundType) (fuel : ℕ) : Exec Unit := do
  let typeList := s.fundListByType fundType
  let c ← whileLoop (fun _ c => decide (0 < c.1))
    (walkBody (fun id => (s.fundById id).typeListNext) (s.checkTypeItem typeList)) .outOfGas fuel 0
    (typeList.first, 0, 0)
  require (c.2.1 = typeList.totalBalance) "type list inconsistency: bad sum"

/-- The loop body of `check_consistency_for_user_type`, on the sum so far and the id before. -/
def checkUserTypeItem (s : FundStore) (userId : ℕ) (userTypeList : FundsListInfo) (c : ℕ × ℕ)
    (id : ℕ) : Exec (ℕ × ℕ) := do
  let fundItem := s.fundById id
  require (fundItem.userId = userId) "user-type list inconsistency: bad user_id"
  require (fundItem.userListPrev = c.2) "user-type list inconsistency: bad prev"
  require (fundItem.userListNext = 0 → userTypeList.last = id)
    "user-type list inconsistency: bad list last"
  return (c.1 + fundItem.balance, id)

/-- `check_consistency_for_user_type` -/
def checkConsistencyForUserType (s : FundStore) (userId : ℕ) (fundType : FundType) (fuel : ℕ) :
    Exec Unit := do
  let userTypeList := s.fundListByUser (userId, fundType)
  let c ← whileLoop (fun _ c => decide (0 < c.1))
    (walkBody (fun id => (s.fundById id).userListNext) (s.checkUserTypeItem userId userTypeList))
    .outOfGas fuel 0 (userTypeList.first, 0, 0)
  require (c.2.1 = userTypeList.totalBalance) "user-type list inconsistency: bad sum"

/-- `check_consistency` -/
def checkConsistency (s : FundStore) (numUsers fuel : ℕ) : Exec Unit :=
  FundType.allTypes.forM fun fundType => do
    s.checkConsistencyForType fundType fuel
    (List.range' 1 numUsers).forM fun userId => s.checkConsistencyForUserType userId fundType fuel

variable {s : FundStore} {t : FundType} {u fuel numUsers : ℕ}

/-! ### What it accepts -/

section Walk

variable {next prev balance : ℕ → ℕ} {good : ℕ → Prop} {last : ℕ}
  {visit : ℕ × ℕ → ℕ → Exec (ℕ × ℕ)}

/-- The visits of the two checks: `good` is what is asked of an item besides its links. -/
def Checks (visit : ℕ × ℕ → ℕ → Exec (ℕ × ℕ)) (next prev : ℕ → ℕ) (good : ℕ → Prop)
    (balance : ℕ → ℕ) (last : ℕ) : Prop :=
  ∀ c id c', visit c id = .ok c' ↔
    (good id ∧ prev id = c.2 ∧ (next id = 0 → last = id)) ∧ c' = (c.1 + balance id, id)

/-- What a loop that stands at `id` and comes from `p` goes through without a complaint. -/
structure Accepts (next prev : ℕ → ℕ) (good : ℕ → Prop) (last p id : ℕ) (l : List ℕ) : Prop where
  first : id = l.headD 0
  last : l ≠ [] → last = l.getLastD p
  seg : Seg next prev p l 0
  null : 0 ∉ l
  good : ∀ a ∈ l, good a

theorem accepts_nil {p : ℕ} : Accepts next prev good last p 0 [] :=
  ⟨rfl, fun h => absurd rfl h, trivial, List.not_mem_nil, fun _ h => absurd h List.not_mem_nil⟩

theorem Accepts.eq_nil {p : ℕ} {l : List ℕ} (h : Accepts next prev good last p 0 l) : l = [] := by
  cases l with
  | nil => rfl
  | cons a l =>
    obtain rfl : 0 = a := h.first
    exact absurd List.mem_cons_self h.null

theorem accepts_cons {p id : ℕ} {l : List ℕ} :
    Accepts next prev good last p id (id :: l) ↔
      (good id ∧ prev id = p ∧ (next id = 0 → last = id)) ∧ id ≠ 0 ∧
        Accepts next prev good last id (next id) l := by
  constructor
  · rintro ⟨-, hlast, ⟨hprev, hnext, hseg⟩, hnull, hgood⟩
    rw [List.mem_cons, not_or] at hnull
    have hlast := hlast (List.cons_ne_nil id l)
    rw [List.getLastD_cons] at hlast
    have hrest : Accepts next prev good last id (next id) l :=
      ⟨hnext, fun _ => hlast, hseg, hnull.2, fun a ha => hgood a (List.mem_cons_of_mem id ha)⟩
    refine ⟨⟨hgood id List.mem_cons_self, hprev, fun h0 => ?_⟩, Ne.symm hnull.1, hrest⟩
    rw [h0] at hrest
    rw [hlast, hrest.eq_nil]
    rfl
  · rintro ⟨⟨hg, hprev, hend⟩, hne, hfirst, hlast, hseg, hnull, hgood⟩
    refine ⟨rfl, fun _ => ?_, ⟨hprev, hfirst, hseg⟩, ?_, ?_⟩
    · rw [List.getLastD_cons]
      cases l with
      | nil => exact hend hfirst
      | cons b l => exact hlast (List.cons_ne_nil b l)
    · rw [List.mem_cons, not_or]
      exact ⟨hne.symm, hnull⟩
    · intro a ha
      rcases List.mem_cons.mp ha with rfl | ha
      · exact hg
      · exact hgood a ha

/-- At the end of a list the loop stops. -/
theorem whileLoop_null_eq_ok (fuel k sum p : ℕ) (c : ℕ × ℕ × ℕ) :
    whileLoop (fun _ c => decide (0 < c.1)) (walkBody next visit) .outOfGas fuel k (0, sum, p) =
        .ok c ↔
      ∃ l, l.length ≤ fuel ∧ Accepts next prev good last p 0 l ∧
        c = (0, sum + (l.map balance).sum, l.getLastD p) := by
  rw [whileLoop_of_not_guard (by simp)]
  constructor
  · rintro ⟨⟩
    exact ⟨[], Nat.zero_le _, accepts_nil, rfl⟩
  · rintro ⟨l, -, hl, rfl⟩
    rw [hl.eq_nil]
    rfl

/-- The loop of a check ends well exactly on a list. -/
theorem Checks.whileLoop_eq_ok (h : Checks visit next prev good balance last) (fuel k id sum p : ℕ)
    (c : ℕ × ℕ × ℕ) :
    whileLoop (fun _ c => decide (0 < c.1)) (walkBody next visit) .outOfGas fuel k (id, sum, p) =
        .ok c ↔
      ∃ l, l.length ≤ fuel ∧ Accepts next prev good last p id l ∧
        c = (0, sum + (l.map balance).sum, l.getLastD p) := by
  induction fuel generalizing k id sum p c with
  | zero =>
    by_cases hid : id = 0
    · subst hid
      exact whileLoop_null_eq_ok 0 k sum p c
    · rw [whileLoop_zero_of_guard (by simpa using Nat.pos_of_ne_zero hid)]
      simp only [reduceCtorEq, false_iff, not_exists, not_and]
      intro l hlen hl
      rw [List.length_eq_zero_iff.mp (Nat.le_zero.mp hlen)] at hl
      exact absurd hl.first hid
  | succ fuel ih =>
    by_cases hid : id = 0
    · subst hid
      exact whileLoop_null_eq_ok _ k sum p c
    · rw [whileLoop_succ_of_guard (by simpa using Nat.pos_of_ne_zero hid), bind_eq_ok]
      constructor
      · rintro ⟨c₁, hbody, hrest⟩
        obtain ⟨c', hvisit, rfl⟩ : ∃ c', visit (sum, p) id = .ok c' ∧ (next id, c') = c₁ := by
          simp only [walkBody] at hbody
          cases hv : visit (sum, p) id with
          | error e => simp [hv, Except.map] at hbody
          | ok c' => exact ⟨c', rfl, by simpa [hv, Except.map] using hbody⟩
        obtain ⟨hgood, rfl⟩ := (h _ _ _).mp hvisit
        obtain ⟨l, hlen, hl, rfl⟩ := (ih _ _ _ _ _).mp hrest
        refine ⟨id :: l, by simpa using hlen, accepts_cons.mpr ⟨hgood, hid, hl⟩, ?_⟩
        rw [List.map_cons, List.sum_cons, List.getLastD_cons, Nat.add_assoc]
      · rintro ⟨l, hlen, hl, rfl⟩
        cases l with
        | nil => exact absurd hl.first hid
        | cons a l =>
          obtain rfl : id = a := hl.first
          obtain ⟨hgood, -, hl⟩ := accepts_cons.mp hl
          have hvisit := (h (sum, p) id _).mpr ⟨hgood, rfl⟩
          refine ⟨(next id, sum + balance id, id), by simp [walkBody, hvisit, Except.map], ?_⟩
          refine (ih _ _ _ _ _).mpr ⟨l, by simpa using hlen, hl, ?_⟩
          rw [List.map_cons, List.sum_cons, List.getLastD_cons, Nat.add_assoc]

end Walk

/-- What `check_consistency_for_type` makes sure of. -/
def TypeConsistent (s : FundStore) (t : FundType) (fuel : ℕ) : Prop :=
  ∃ l : List ℕ, l.length ≤ fuel ∧ Accepts (fun id => (s.fundById id).typeListNext)
    (fun id => (s.fundById id).typeListPrev) (fun _ => True) (s.fundListByType t).last 0
    (s.fundListByType t).first l ∧ s.sumBalances l = s.typeTotal t

/-- What `check_consistency_for_user_type` makes sure of. -/
def UserTypeConsistent (s : FundStore) (u : ℕ) (t : FundType) (fuel : ℕ) : Prop :=
  ∃ l : List ℕ, l.length ≤ fuel ∧ Accepts (fun id => (s.fundById id).userListNext)
    (fun id => (s.fundById id).userListPrev) (fun id => (s.fundById id).userId = u)
    (s.fundListByUser (u, t)).last 0 (s.fundListByUser (u, t)).first l ∧
    s.sumBalances l = s.userTotal u t

theorem checks_checkTypeItem (s : FundStore) (typeList : FundsListInfo) :
    Checks (s.checkTypeItem typeList) (fun id => (s.fundById id).typeListNext)
      (fun id => (s.fundById id).typeListPrev) (fun _ => True) (fun id => (s.fundById id).balance)
      typeList.last := by
  intro c id c'
  simp only [checkTypeItem, bind_eq_ok, require_eq_ok, pure_eq_ok, Except.ok.injEq, true_and]
  constructor
  · rintro ⟨-, hprev, -, hlast, rfl⟩
    exact ⟨⟨hprev, hlast⟩, rfl⟩
  · rintro ⟨⟨hprev, hlast⟩, rfl⟩
    exact ⟨(), hprev, (), hlast, rfl⟩

theorem checks_checkUserTypeItem (s : FundStore) (u : ℕ) (userTypeList : FundsListInfo) :
    Checks (s.checkUserTypeItem u userTypeList) (fun id => (s.fundById id).userListNext)
      (fun id => (s.fundById id).userListPrev) (fun id => (s.fundById id).userId = u)
      (fun id => (s.fundById id).balance) userTypeList.last := by
  intro c id c'
  simp only [checkUserTypeItem, bind_eq_ok, require_eq_ok, pure_eq_ok, Except.ok.injEq]
  constructor
  · rintro ⟨-, huser, -, hprev, -, hlast, rfl⟩
    exact ⟨⟨huser, hprev, hlast⟩, rfl⟩
  · rintro ⟨⟨huser, hprev, hlast⟩, rfl⟩
    exact ⟨(), huser, (), hprev, (), hlast, rfl⟩

theorem checkConsistencyForType_iff :
    s.checkConsistencyForType t fuel = .ok () ↔ s.TypeConsistent t fuel := by
  simp only [checkConsistencyForType, bind_eq_ok, require_eq_ok,
    (s.checks_checkTypeItem (s.fundListByType t)).whileLoop_eq_ok]
  constructor
  · rintro ⟨_, ⟨l, hlen, hl, rfl⟩, hsum⟩
    exact ⟨l, hlen, hl, (Nat.zero_add _).symm.trans hsum⟩
  · rintro ⟨l, hlen, hl, hsum⟩
    exact ⟨_, ⟨l, hlen, hl, rfl⟩, (Nat.zero_add _).trans hsum⟩

theorem checkConsistencyForUserType_iff :
    s.checkConsistencyForUserType u t fuel = .ok () ↔ s.UserTypeConsistent u t fuel := by
  simp only [checkConsistencyForUserType, bind_eq_ok, require_eq_ok,
    (s.checks_checkUserTypeItem u (s.fundListByUser (u, t))).whileLoop_eq_ok]
  constructor
  · rintro ⟨_, ⟨l, hlen, hl, rfl⟩, hsum⟩
    exact ⟨l, hlen, hl, (Nat.zero_add _).symm.trans hsum⟩
  · rintro ⟨l, hlen, hl, hsum⟩
    exact ⟨_, ⟨l, hlen, hl, rfl⟩, (Nat.zero_add _).trans hsum⟩

/-- A sequence of checks. -/
theorem forM_eq_ok {α : Type} {check : α → Exec Unit} {l : List α} :
    l.forM check = .ok () ↔ ∀ a ∈ l, check a = .ok () := by
  induction l with
  | nil => simp [pure_eq_ok]
  | cons a l ih =>
    change (check a >>= fun _ => l.forM check) = .ok () ↔ _
    rw [bind_eq_ok, List.forall_mem_cons, ← ih]
    constructor
    · rintro ⟨⟨⟩, ha, hl⟩
      exact ⟨ha, hl⟩
    · rintro ⟨ha, hl⟩
      exact ⟨(), ha, hl⟩

/-- **What the check is worth.** It accepts exactly the stores in which the lists of every type, and
those of every user and type, are doubly linked lists with the right total. -/
theorem checkConsistency_iff :
    s.checkConsistency numUsers fuel = .ok () ↔
      ∀ t ∈ FundType.allTypes, s.TypeConsistent t fuel ∧
        ∀ u, 1 ≤ u → u ≤ numUsers → s.UserTypeConsistent u t fuel := by
  rw [checkConsistency, forM_eq_ok]
  refine forall₂_congr fun t _ => ?_
  have hunit : ∀ (x : Exec Unit) (P : Prop), (∃ a : Unit, x = .ok a ∧ P) ↔ x = .ok () ∧ P := by
    intro x P
    constructor
    · rintro ⟨⟨⟩, h⟩
      exact h
    · exact fun h => ⟨(), h⟩
  rw [bind_eq_ok, hunit, checkConsistencyForType_iff]
  simp only [forM_eq_ok, checkConsistencyForUserType_iff, List.mem_range'_1, Nat.lt_add_one_iff,
    Nat.add_comm 1, and_imp]

/-- **Well formed stores pass**, for any number of users. -/
theorem WellFormed.checkConsistency (h : s.WellFormed) (hfuel : s.fundMaxId ≤ fuel)
    (numUsers : ℕ) : s.checkConsistency numUsers fuel = .ok () := by
  obtain ⟨lay, hl, -⟩ := h
  rw [checkConsistency_iff]
  intro t _
  constructor
  · have hrep := hl.types.rep t trivial
    exact ⟨lay.byType t, (hl.length_byType_le t).trans hfuel,
      ⟨hrep.first, fun _ => hrep.last, hrep.seg, hl.types.null t, fun _ _ => trivial⟩,
      (hl.typeTotal_eq t).symm⟩
  · intro u _ _
    have hrep := hl.users.rep (u, t) trivial
    refine ⟨lay.byUser (u, t), (hl.length_byUser_le (u, t)).trans hfuel,
      ⟨hrep.first, fun _ => hrep.last, hrep.seg, hl.users.null (u, t), fun id hid => ?_⟩,
      (hl.userTotal_eq u t).symm⟩
    exact congrArg Prod.fst ((hl.mem_byUser (u, t) id).mp hid).2

end FundStore

end Delegation
