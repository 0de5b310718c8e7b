import Mathlib.Algebra.Order.BigOperators.Group.List
import Delegation.Lib.DoublyLinked
import Delegation.Fund.Module

/-!
# The representation invariant of the fund store

The fund store keeps two families of intrusive lists in the links of the same items, one by type
and one by user and type. A `Layout` names the lists; `FundStore.Linked` says that the storage
represents them: the two families of links are the lists, an item stands in the list of its type
and in the list of its user and type exactly when it is live (its balance is not zero), every
other cell is cleared, and the cached totals are the sums of the balances.

`Linked` takes the set of types whose type list is intact. For the other types only the looser
half of `DoublyLinked.Family.Rep` is claimed: their ends may be lost, but their links still stay
among their own items, so that editing them cannot damage any other list.
-/

namespace Delegation

open Outcome DoublyLinked

/-- What an item says, without its links. -/
structure Entry where
  userId : ℕ
  fundDesc : FundDescription
  balance : ℕ
  deriving DecidableEq, Repr

/-- The type of an entry. -/
def Entry.fundType (e : Entry) : FundType := e.fundDesc.fundType

/-- An item without its links. -/
@[simps]
def FundItem.entry (item : FundItem) : Entry := ⟨item.userId, item.fundDesc, item.balance⟩

/-- The list of its user that an item stands in. -/
def FundItem.userKey (item : FundItem) : ℕ × FundType := (item.userId, item.fundType)

/-- The lists by type and the lists by user and type. -/
@[ext]
structure Layout where
  byType : FundType → List ℕ
  byUser : ℕ × FundType → List ℕ

namespace FundStore

/-- The entry of a cell. -/
def entry (s : FundStore) (id : ℕ) : Entry := (s.fundById id).entry

/-- A cell holds funds. -/
def Live (s : FundStore) (id : ℕ) : Prop := 0 < (s.fundById id).balance

/-- `get_user_stake_of_type(USER_STAKE_TOTALS_ID, t)`: the cached total of a type. -/
def typeTotal (s : FundStore) (t : FundType) : ℕ := (s.fundListByType t).totalBalance

/-- The cached total of a user and type. -/
def userTotal (s : FundStore) (u : ℕ) (t : FundType) : ℕ := (s.fundListByUser (u, t)).totalBalance

/-- The links of the lists by type. -/
@[simps]
def typeFamily (s : FundStore) : Family FundType ℕ where
  next id := (s.fundById id).typeListNext
  prev id := (s.fundById id).typeListPrev
  first t := (s.fundListByType t).first
  last t := (s.fundListByType t).last

/-- The links of the lists by user and type. -/
@[simps]
def userFamily (s : FundStore) : Family (ℕ × FundType) ℕ where
  next id := (s.fundById id).userListNext
  prev id := (s.fundById id).userListPrev
  first k := (s.fundListByUser k).first
  last k := (s.fundListByUser k).last

/-- The balances of a list of ids. -/
def sumBalances (s : FundStore) (ids : List ℕ) : ℕ :=
  (ids.map fun id => (s.fundById id).balance).sum

/-- **The representation invariant**: the store holds the lists `lay`, by type exactly where
`intact` says so. -/
structure Linked (intact : FundType → Prop) (s : FundStore) (lay : Layout) : Prop where
  types : s.typeFamily.Rep intact lay.byType
  users : s.userFamily.Rep (fun _ => True) lay.byUser
  mem_byType : ∀ t id, id ∈ lay.byType t ↔ s.Live id ∧ (s.fundById id).fundType = t
  mem_byUser : ∀ k id, id ∈ lay.byUser k ↔ s.Live id ∧ (s.fundById id).userKey = k
  le_max : ∀ id, s.Live id → id ≤ s.fundMaxId
  cleared : ∀ id, id ≠ 0 → ¬ s.Live id → s.fundById id = FundItem.default
  typeTotal_eq : ∀ t, s.typeTotal t = s.sumBalances (lay.byType t)
  userTotal_eq : ∀ u t, s.userTotal u t = s.sumBalances (lay.byUser (u, t))

/-- The lists by user are the lists by type restricted to the user, in the same order. -/
def Coherent (s : FundStore) (lay : Layout) : Prop :=
  ∀ u t, lay.byUser (u, t) = (lay.byType t).filter fun id => (s.fundById id).userId = u

variable {intact intact' : FundType → Prop} {s : FundStore} {lay : Layout} {id : ℕ}
  {t : FundType} {k : ℕ × FundType}

/-! ### Consequences of the invariant -/

/-- The empty store holds the empty lists. -/
theorem linked_empty : Linked (fun _ => True) empty ⟨fun _ => [], fun _ => []⟩ where
  types := ⟨fun _ => List.nodup_nil, fun _ => by simp, fun _ _ _ h => by simp at h,
    fun _ _ => ⟨rfl, rfl, trivial⟩,
    fun _ => ⟨.inl rfl, .inl rfl, fun _ h => by simp at h, fun _ h => by simp at h⟩⟩
  users := ⟨fun _ => List.nodup_nil, fun _ => by simp, fun _ _ _ h => by simp at h,
    fun _ _ => ⟨rfl, rfl, trivial⟩,
    fun _ => ⟨.inl rfl, .inl rfl, fun _ h => by simp at h, fun _ h => by simp at h⟩⟩
  mem_byType _ _ := by simp [Live, empty, FundItem.default]
  mem_byUser _ _ := by simp [Live, empty, FundItem.default]
  le_max _ h := by simp [Live, empty, FundItem.default] at h
  cleared _ _ _ := rfl
  typeTotal_eq _ := rfl
  userTotal_eq _ _ := rfl

theorem coherent_empty : Coherent empty ⟨fun _ => [], fun _ => []⟩ := fun _ _ => rfl

theorem Linked.mono (h : Linked intact s lay) (hi : ∀ t, intact' t → intact t) :
    Linked intact' s lay :=
  { h with types := h.types.mono hi }

theorem Linked.live (h : Linked intact s lay) (hid : id ∈ lay.byType t) : s.Live id :=
  ((h.mem_byType t id).mp hid).1

theorem Linked.fundType_eq (h : Linked intact s lay) (hid : id ∈ lay.byType t) :
    (s.fundById id).fundType = t :=
  ((h.mem_byType t id).mp hid).2

theorem Linked.mem_own (h : Linked intact s lay) (hid : s.Live id) :
    id ∈ lay.byType (s.fundById id).fundType :=
  (h.mem_byType _ id).mpr ⟨hid, rfl⟩

theorem Linked.mem_ownUser (h : Linked intact s lay) (hid : s.Live id) :
    id ∈ lay.byUser (s.fundById id).userKey :=
  (h.mem_byUser _ id).mpr ⟨hid, rfl⟩

theorem Linked.ne_zero (h : Linked intact s lay) (hid : s.Live id) : id ≠ 0 := by
  rintro rfl
  exact h.types.null _ (h.mem_own hid)

/-- Items keep their user and type for as long as they live, and ids are not reused. -/
structure Evolves (s s' : FundStore) : Prop where
  fundMaxId : s.fundMaxId ≤ s'.fundMaxId
  item : ∀ id, id ≤ s.fundMaxId → s'.Live id →
    s.Live id ∧ (s'.fundById id).userKey = (s.fundById id).userKey

theorem Evolves.refl (s : FundStore) : Evolves s s := ⟨le_rfl, fun _ _ h => ⟨h, rfl⟩⟩

theorem Evolves.trans {s' s'' : FundStore} (h : Evolves s s') (h' : Evolves s' s'') :
    Evolves s s'' := by
  refine ⟨h.fundMaxId.trans h'.fundMaxId, fun id hle hlive => ?_⟩
  obtain ⟨hlive', hkey'⟩ := h'.item id (hle.trans h.fundMaxId) hlive
  obtain ⟨hlive, hkey⟩ := h.item id hle hlive'
  exact ⟨hlive, hkey'.trans hkey⟩

/-- It is enough that no old item enters a list. -/
theorem Linked.evolves (h : Linked intact s lay) {s' : FundStore} {lay' : Layout}
    (h' : Linked intact' s' lay') (hmax : s.fundMaxId ≤ s'.fundMaxId)
    (hold : ∀ k id, id ≤ s.fundMaxId → id ∈ lay'.byUser k → id ∈ lay.byUser k) :
    Evolves s s' := by
  refine ⟨hmax, fun id hle hlive => ?_⟩
  have hmem := hold _ id hle (h'.mem_ownUser hlive)
  obtain ⟨hl, hkey⟩ := (h.mem_byUser _ id).mp hmem
  exact ⟨hl, hkey.symm⟩

theorem le_sumBalances {ids : List ℕ} (hid : id ∈ ids) :
    (s.fundById id).balance ≤ s.sumBalances ids :=
  List.single_le_sum (fun _ _ => Nat.zero_le _) _ (List.mem_map_of_mem hid)

/-- A live item is covered by the total of its type. -/
theorem Linked.balance_le_typeTotal (h : Linked intact s lay) (hid : s.Live id) :
    (s.fundById id).balance ≤ s.typeTotal (s.fundById id).fundType := by
  rw [h.typeTotal_eq]
  exact le_sumBalances (h.mem_own hid)

/-- A live item is covered by the total of its user and type. -/
theorem Linked.balance_le_userTotal (h : Linked intact s lay) (hid : s.Live id) :
    (s.fundById id).balance ≤ s.userTotal (s.fundById id).userId (s.fundById id).fundType := by
  rw [h.userTotal_eq]
  exact le_sumBalances (h.mem_ownUser hid)

/-- A list of live items is empty when its balances sum to zero. -/
theorem eq_nil_of_sumBalances_eq_zero {ids : List ℕ} (hlive : ∀ id ∈ ids, s.Live id)
    (h : s.sumBalances ids = 0) : ids = [] := by
  cases ids with
  | nil => rfl
  | cons id ids =>
    have h1 : (s.fundById id).balance ≤ s.sumBalances (id :: ids) := le_sumBalances (by simp)
    have h2 := hlive id (by simp)
    unfold Live at h2
    omega

/-- A list without repetitions has no more live items than were ever created. -/
theorem Linked.length_le (h : Linked intact s lay) {ids : List ℕ} (hnodup : ids.Nodup)
    (hlive : ∀ id ∈ ids, s.Live id) : ids.length ≤ s.fundMaxId := by
  have hsub : ids ⊆ List.range' 1 s.fundMaxId := by
    intro id hid
    have h1 := h.le_max id (hlive id hid)
    have h2 := h.ne_zero (hlive id hid)
    rw [List.mem_range'_1]
    omega
  simpa using (hnodup.subperm hsub).length_le

theorem Linked.length_byType_le (h : Linked intact s lay) (t : FundType) :
    (lay.byType t).length ≤ s.fundMaxId :=
  h.length_le (h.types.nodup t) fun _ hid => h.live hid

theorem Linked.length_byUser_le (h : Linked intact s lay) (k : ℕ × FundType) :
    (lay.byUser k).length ≤ s.fundMaxId :=
  h.length_le (h.users.nodup k) fun id hid => ((h.mem_byUser k id).mp hid).1

theorem Linked.byType_eq_nil_iff (h : Linked intact s lay) :
    lay.byType t = [] ↔ s.typeTotal t = 0 := by
  rw [h.typeTotal_eq]
  refine ⟨fun hl => by rw [hl]; rfl, eq_nil_of_sumBalances_eq_zero fun id hid => h.live hid⟩

theorem Linked.byUser_eq_nil_iff (h : Linked intact s lay) {u : ℕ} :
    lay.byUser (u, t) = [] ↔ s.userTotal u t = 0 := by
  rw [h.userTotal_eq]
  refine ⟨fun hl => by rw [hl]; rfl, eq_nil_of_sumBalances_eq_zero fun id hid => ?_⟩
  exact ((h.mem_byUser _ id).mp hid).1

/-- The head record of a type reads as the default exactly when the list is empty. -/
theorem Linked.typeList_isDefault_iff (h : Linked intact s lay) :
    (s.fundListByType t).isDefault = true ↔ lay.byType t = [] := by
  rw [FundsListInfo.isDefault_iff]
  constructor
  · exact fun hd => h.byType_eq_nil_iff.mpr hd.1
  · intro hl
    have hf := h.types.first_mem t
    have hla := h.types.last_mem t
    rw [hl] at hf hla
    simp only [List.not_mem_nil, or_false, typeFamily_first, typeFamily_last] at hf hla
    exact ⟨h.byType_eq_nil_iff.mp hl, hf, hla⟩

/-- The head record of a user and type reads as the default exactly when the list is empty. -/
theorem Linked.userList_isDefault_iff (h : Linked intact s lay) :
    (s.fundListByUser k).isDefault = true ↔ lay.byUser k = [] := by
  rw [FundsListInfo.isDefault_iff]
  constructor
  · exact fun hd => h.byUser_eq_nil_iff.mpr hd.1
  · intro hl
    have hf := h.users.first_mem k
    have hla := h.users.last_mem k
    rw [hl] at hf hla
    simp only [List.not_mem_nil, or_false, userFamily_first, userFamily_last] at hf hla
    exact ⟨h.byUser_eq_nil_iff.mp hl, hf, hla⟩

/-- Writing a live cell back unchanged changes nothing. -/
theorem setFund_self (hid : s.Live id) : s.setFund id (s.fundById id) = s := by
  unfold setFund
  rw [FundItem.stored_of_balance_pos hid, Function.update_eq_self]

/-! ### Single cells

The links and the balance of a cell do not depend on how a cleared cell is read back, so on these
fields a write is a plain function update. -/

section Fields

variable {π : FundItem → ℕ}

theorem setFund_field (hπ : ∀ item : FundItem, π item.stored = π item) (s : FundStore) (p : ℕ)
    (item : FundItem) :
    (fun a => π ((s.setFund p item).fundById a)) =
      Function.update (fun a => π (s.fundById a)) p (π item) := by
  funext a
  rw [setFund_fundById, Function.update_apply, Function.update_apply]
  split_ifs
  · exact hπ item
  · rfl

/-- A write that keeps the field. -/
theorem setFund_field_eq (hπ : ∀ item : FundItem, π item.stored = π item) {s : FundStore} {p : ℕ}
    {item : FundItem} (h : π item = π (s.fundById p)) :
    (fun a => π ((s.setFund p item).fundById a)) = fun a => π (s.fundById a) := by
  rw [setFund_field hπ, h]
  exact Function.update_eq_self p _

end Fields

@[simp]
theorem updateFund_fundMaxId (s : FundStore) (p : ℕ) (f : FundItem → FundItem) :
    (s.updateFund p f).fundMaxId = s.fundMaxId := rfl

@[simp]
theorem updateFund_fundListByType (s : FundStore) (p : ℕ) (f : FundItem → FundItem) :
    (s.updateFund p f).fundListByType = s.fundListByType := rfl

@[simp]
theorem updateFund_fundListByUser (s : FundStore) (p : ℕ) (f : FundItem → FundItem) :
    (s.updateFund p f).fundListByUser = s.fundListByUser := rfl

theorem updateFund_fundById_of_ne {p a : ℕ} (h : a ≠ p) (s : FundStore)
    (f : FundItem → FundItem) : (s.updateFund p f).fundById a = s.fundById a := by
  simp [updateFund, h]

@[simp]
theorem updateFund_balance {f : FundItem → FundItem} (hf : ∀ item, (f item).balance = item.balance)
    (s : FundStore) (p a : ℕ) :
    ((s.updateFund p f).fundById a).balance = (s.fundById a).balance :=
  congrFun (setFund_field_eq FundItem.stored_balance (hf (s.fundById p))) a

/-- An update that only touches links keeps the entry of every live cell. -/
theorem updateFund_entry {f : FundItem → FundItem} (hf : ∀ item, (f item).entry = item.entry)
    {a : ℕ} (ha : s.Live a) (p : ℕ) : (s.updateFund p f).entry a = s.entry a := by
  rcases eq_or_ne a p with rfl | hne
  · have hb : (f (s.fundById a)).balance = (s.fundById a).balance :=
      congrArg Entry.balance (hf (s.fundById a))
    have hst : (f (s.fundById a)).stored = f (s.fundById a) :=
      FundItem.stored_of_balance_pos (by rw [hb]; exact ha)
    simp [entry, updateFund, hst, hf]
  · simp only [entry, updateFund_fundById_of_ne hne]

/-! ### The two families after a write -/

@[simp]
theorem typeFamily_setFund (s : FundStore) (id : ℕ) (item : FundItem) :
    (s.setFund id item).typeFamily =
      { s.typeFamily with
        next := Function.update s.typeFamily.next id item.typeListNext
        prev := Function.update s.typeFamily.prev id item.typeListPrev } :=
  Family.ext (setFund_field FundItem.stored_typeListNext s id item)
    (setFund_field FundItem.stored_typeListPrev s id item) rfl rfl

@[simp]
theorem userFamily_setFund (s : FundStore) (id : ℕ) (item : FundItem) :
    (s.setFund id item).userFamily =
      { s.userFamily with
        next := Function.update s.userFamily.next id item.userListNext
        prev := Function.update s.userFamily.prev id item.userListPrev } :=
  Family.ext (setFund_field FundItem.stored_userListNext s id item)
    (setFund_field FundItem.stored_userListPrev s id item) rfl rfl

@[simp]
theorem typeFamily_setTypeList (s : FundStore) (t : FundType) (info : FundsListInfo) :
    (s.setTypeList t info).typeFamily =
      { s.typeFamily with
        first := Function.update s.typeFamily.first t info.first
        last := Function.update s.typeFamily.last t info.last } := by
  ext <;> simp [Function.update_apply, apply_ite FundsListInfo.first,
    apply_ite FundsListInfo.last]

@[simp]
theorem userFamily_setUserList (s : FundStore) (k : ℕ × FundType) (info : FundsListInfo) :
    (s.setUserList k info).userFamily =
      { s.userFamily with
        first := Function.update s.userFamily.first k info.first
        last := Function.update s.userFamily.last k info.last } := by
  ext <;> simp [Function.update_apply, apply_ite FundsListInfo.first,
    apply_ite FundsListInfo.last]

@[simp]
theorem userFamily_setTypeList (s : FundStore) (t : FundType) (info : FundsListInfo) :
    (s.setTypeList t info).userFamily = s.userFamily := rfl

@[simp]
theorem typeFamily_setUserList (s : FundStore) (k : ℕ × FundType) (info : FundsListInfo) :
    (s.setUserList k info).typeFamily = s.typeFamily := rfl

@[simp]
theorem typeFamily_setFundMaxId (s : FundStore) (id : ℕ) :
    (s.setFundMaxId id).typeFamily = s.typeFamily := rfl

@[simp]
theorem userFamily_setFundMaxId (s : FundStore) (id : ℕ) :
    (s.setFundMaxId id).userFamily = s.userFamily := rfl

/-! The four link updates that the list operations perform on a neighbour. -/

@[simp]
theorem typeFamily_linkTypeNext (s : FundStore) (p n : ℕ) :
    (s.updateFund p fun item => { item with typeListNext := n }).typeFamily =
      { s.typeFamily with next := Function.update s.typeFamily.next p n } :=
  (typeFamily_setFund s p _).trans
    (Family.ext rfl (Function.update_eq_self p s.typeFamily.prev) rfl rfl)

@[simp]
theorem typeFamily_linkTypePrev (s : FundStore) (p n : ℕ) :
    (s.updateFund p fun item => { item with typeListPrev := n }).typeFamily =
      { s.typeFamily with prev := Function.update s.typeFamily.prev p n } :=
  (typeFamily_setFund s p _).trans
    (Family.ext (Function.update_eq_self p s.typeFamily.next) rfl rfl rfl)

@[simp]
theorem typeFamily_linkUserNext (s : FundStore) (p n : ℕ) :
    (s.updateFund p fun item => { item with userListNext := n }).typeFamily = s.typeFamily :=
  (typeFamily_setFund s p _).trans
    (Family.ext (Function.update_eq_self p s.typeFamily.next)
      (Function.update_eq_self p s.typeFamily.prev) rfl rfl)

@[simp]
theorem typeFamily_linkUserPrev (s : FundStore) (p n : ℕ) :
    (s.updateFund p fun item => { item with userListPrev := n }).typeFamily = s.typeFamily :=
  (typeFamily_setFund s p _).trans
    (Family.ext (Function.update_eq_self p s.typeFamily.next)
      (Function.update_eq_self p s.typeFamily.prev) rfl rfl)

@[simp]
theorem userFamily_linkUserNext (s : FundStore) (p n : ℕ) :
    (s.updateFund p fun item => { item with userListNext := n }).userFamily =
      { s.userFamily with next := Function.update s.userFamily.next p n } :=
  (userFamily_setFund s p _).trans
    (Family.ext rfl (Function.update_eq_self p s.userFamily.prev) rfl rfl)

@[simp]
theorem userFamily_linkUserPrev (s : FundStore) (p n : ℕ) :
    (s.updateFund p fun item => { item with userListPrev := n }).userFamily =
      { s.userFamily with prev := Function.update s.userFamily.prev p n } :=
  (userFamily_setFund s p _).trans
    (Family.ext (Function.update_eq_self p s.userFamily.next) rfl rfl rfl)

@[simp]
theorem userFamily_linkTypeNext (s : FundStore) (p n : ℕ) :
    (s.updateFund p fun item => { item with typeListNext := n }).userFamily = s.userFamily :=
  (userFamily_setFund s p _).trans
    (Family.ext (Function.update_eq_self p s.userFamily.next)
      (Function.update_eq_self p s.userFamily.prev) rfl rfl)

@[simp]
theorem userFamily_linkTypePrev (s : FundStore) (p n : ℕ) :
    (s.updateFund p fun item => { item with typeListPrev := n }).userFamily = s.userFamily :=
  (userFamily_setFund s p _).trans
    (Family.ext (Function.update_eq_self p s.userFamily.next)
      (Function.update_eq_self p s.userFamily.prev) rfl rfl)

end FundStore

end Delegation
