import Delegation.Fund.Layout

/-!
# Extracting balance from an item

`delete_fund` and `decrease_fund_balance` work on a local copy of the item, which their caller
writes back later. The specifications here speak of the storage after that write: `Extracted`
says what the call returns, the new layout, and what happens to the entries and the cached totals.
-/

namespace Delegation

open Outcome DoublyLinked

/-- The local copy that `delete_fund` leaves. -/
@[simps]
def FundItem.emptied (item : FundItem) : FundItem where
  fundDesc := item.fundDesc
  userId := item.userId
  balance := 0
  typeListNext := 0
  typeListPrev := 0
  userListNext := 0
  userListPrev := 0

@[simp]
theorem FundItem.stored_emptied (item : FundItem) : item.emptied.stored = FundItem.default := by
  simp [FundItem.stored, FundItem.isDefault]

/-- The layout without an item. -/
@[simps]
def Layout.erase (lay : Layout) (item : FundItem) (id : ℕ) : Layout where
  byType := Function.update lay.byType item.fundType ((lay.byType item.fundType).erase id)
  byUser := Function.update lay.byUser item.userKey ((lay.byUser item.userKey).erase id)

namespace FundStore

variable {intact : FundType → Prop} {s s' : FundStore} {lay : Layout} {id : ℕ} {item : FundItem}
  {t : FundType} {u : ℕ}

@[simp]
theorem entry_setTypeList (s : FundStore) (t : FundType) (info : FundsListInfo) (a : ℕ) :
    (s.setTypeList t info).entry a = s.entry a := rfl

@[simp]
theorem entry_setUserList (s : FundStore) (k : ℕ × FundType) (info : FundsListInfo) (a : ℕ) :
    (s.setUserList k info).entry a = s.entry a := rfl

@[simp]
theorem entry_setFundMaxId (s : FundStore) (id a : ℕ) :
    (s.setFundMaxId id).entry a = s.entry a := rfl

theorem fundType_eq_of_entry {a : ℕ} (h : s'.entry a = s.entry a) :
    (s'.fundById a).fundType = (s.fundById a).fundType :=
  congrArg Entry.fundType h

theorem userKey_eq_of_entry {a : ℕ} (h : s'.entry a = s.entry a) :
    (s'.fundById a).userKey = (s.fundById a).userKey :=
  congrArg (fun e : Entry => (e.userId, e.fundType)) h

theorem balance_eq_of_entry {a : ℕ} (h : s'.entry a = s.entry a) :
    (s'.fundById a).balance = (s.fundById a).balance :=
  congrArg Entry.balance h

theorem sumBalances_congr {ids : List ℕ}
    (h : ∀ a ∈ ids, (s'.fundById a).balance = (s.fundById a).balance) :
    s'.sumBalances ids = s.sumBalances ids := by
  unfold sumBalances
  rw [List.map_congr_left h]

theorem sumBalances_erase {ids : List ℕ} (h : id ∈ ids) :
    (s.fundById id).balance + s.sumBalances (ids.erase id) = s.sumBalances ids :=
  List.sum_map_erase (fun id => (s.fundById id).balance) h

@[simp]
theorem sumBalances_append (ids ids' : List ℕ) :
    s.sumBalances (ids ++ ids') = s.sumBalances ids + s.sumBalances ids' := by
  simp [sumBalances]

@[simp]
theorem sumBalances_singleton (id : ℕ) : s.sumBalances [id] = (s.fundById id).balance := by
  simp [sumBalances]

/-! ### Leaving the lists -/

/-- A neighbour update that may be skipped keeps the entry of every live cell. -/
theorem ite_updateFund_entry {c : Prop} [Decidable c] {f : FundItem → FundItem}
    (hf : ∀ item, (f item).entry = item.entry) {a p : ℕ} (ha : s.Live a) :
    (if c then s else s.updateFund p f).entry a = s.entry a := by
  split_ifs
  · rfl
  · exact updateFund_entry hf ha p

/-- A neighbour update that may be skipped keeps every balance. -/
theorem ite_updateFund_balance {c : Prop} [Decidable c] {f : FundItem → FundItem}
    (hf : ∀ item, (f item).entry = item.entry) (s : FundStore) (p a : ℕ) :
    ((if c then s else s.updateFund p f).fundById a).balance = (s.fundById a).balance := by
  split_ifs
  · rfl
  · exact updateFund_balance (fun item => congrArg Entry.balance (hf item)) s p a

/-- What the two halves of `delete_fund` leave alone. -/
structure LinksOnly (s s' : FundStore) (touched : ℕ → Prop) : Prop where
  fundMaxId : s'.fundMaxId = s.fundMaxId
  balance : ∀ a, (s'.fundById a).balance = (s.fundById a).balance
  entry : ∀ a, s.Live a → s'.entry a = s.entry a
  fundById : ∀ a, ¬ touched a → s'.fundById a = s.fundById a

theorem deleteFromType_ok (s : FundStore) (id : ℕ) (item : FundItem)
    (hp : item.typeListPrev = s.typeFamily.prev id)
    (hn : item.typeListNext = s.typeFamily.next id)
    (ht : item.balance ≤ s.typeTotal item.fundType) :
    ∃ s', s.deleteFromType item = .ok (s', { item with typeListPrev := 0, typeListNext := 0 }) ∧
      s'.typeFamily = s.typeFamily.unlink item.fundType id ∧ s'.userFamily = s.userFamily ∧
      s'.fundListByUser = s.fundListByUser ∧
      s'.typeTotal =
        Function.update s.typeTotal item.fundType (s.typeTotal item.fundType - item.balance) ∧
      LinksOnly s s' fun a => a = item.typeListPrev ∨ a = item.typeListNext := by
  have hsub : bigSub (s.fundListByType item.fundType).totalBalance item.balance =
      .ok ((s.fundListByType item.fundType).totalBalance - item.balance) := bigSub_of_le ht
  unfold deleteFromType
  simp only [hsub, ok_bind]
  refine ⟨_, rfl, ?_, ?_, ?_, ?_, ?_, ?_, ?_, ?_⟩
  · simp only [deleteFundFromTypeList, Family.unlink, Links.unlink, Family.list, hp, hn]
    split_ifs <;> simp_all
  · simp only [deleteFundFromTypeList]
    split_ifs <;> simp
  · simp only [deleteFundFromTypeList]
    split_ifs <;> rfl
  · funext t'
    simp only [deleteFundFromTypeList]
    split_ifs <;> simp [typeTotal, Function.update_apply, apply_ite FundsListInfo.totalBalance]
  · simp only [deleteFundFromTypeList]
    split_ifs <;> rfl
  · intro a
    simp only [deleteFundFromTypeList, setTypeList_fundById]
    rw [ite_updateFund_balance, ite_updateFund_balance] <;> exact fun _ => rfl
  · intro a ha
    simp only [deleteFundFromTypeList, entry_setTypeList]
    rw [ite_updateFund_entry, ite_updateFund_entry _ ha] <;> try exact fun _ => rfl
    unfold Live
    rw [ite_updateFund_balance]
    · exact ha
    · exact fun _ => rfl
  · intro a ha
    rw [not_or] at ha
    simp only [deleteFundFromTypeList]
    split_ifs <;> simp [updateFund_fundById_of_ne, ha.1, ha.2]

theorem deleteFromUser_ok (s : FundStore) (id : ℕ) (item : FundItem)
    (hp : item.userListPrev = s.userFamily.prev id)
    (hn : item.userListNext = s.userFamily.next id)
    (hu : item.balance ≤ s.userTotal item.userId item.fundType) :
    ∃ s', s.deleteFromUser item = .ok (s', { item with userListPrev := 0, userListNext := 0 }) ∧
      s'.userFamily = s.userFamily.unlink item.userKey id ∧ s'.typeFamily = s.typeFamily ∧
      s'.fundListByType = s.fundListByType ∧
      (∀ u t, s'.userTotal u t = if (u, t) = item.userKey then
        s.userTotal item.userId item.fundType - item.balance else s.userTotal u t) ∧
      LinksOnly s s' fun a => a = item.userListPrev ∨ a = item.userListNext := by
  have hsub : bigSub (s.fundListByUser (item.userId, item.fundType)).totalBalance item.balance =
      .ok ((s.fundListByUser (item.userId, item.fundType)).totalBalance - item.balance) :=
    bigSub_of_le hu
  unfold deleteFromUser
  simp only [hsub, ok_bind]
  refine ⟨_, rfl, ?_, ?_, ?_, ?_, ?_, ?_, ?_, ?_⟩
  · simp only [deleteFundFromUserList, Family.unlink, Links.unlink, Family.list, hp, hn,
      FundItem.userKey]
    split_ifs <;> simp_all
  · simp only [deleteFundFromUserList]
    split_ifs <;> simp
  · simp only [deleteFundFromUserList]
    split_ifs <;> rfl
  · intro u t
    simp only [deleteFundFromUserList]
    split_ifs <;> simp_all [userTotal, FundItem.userKey]
  · simp only [deleteFundFromUserList]
    split_ifs <;> rfl
  · intro a
    simp only [deleteFundFromUserList, setUserList_fundById]
    rw [ite_updateFund_balance, ite_updateFund_balance] <;> exact fun _ => rfl
  · intro a ha
    simp only [deleteFundFromUserList, entry_setUserList]
    rw [ite_updateFund_entry, ite_updateFund_entry _ ha] <;> try exact fun _ => rfl
    unfold Live
    rw [ite_updateFund_balance]
    · exact ha
    · exact fun _ => rfl
  · intro a ha
    rw [not_or] at ha
    simp only [deleteFundFromUserList]
    split_ifs <;> simp [updateFund_fundById_of_ne, ha.1, ha.2]

theorem LinksOnly.trans {s'' : FundStore} {touched touched' : ℕ → Prop}
    (h : LinksOnly s s' touched) (h' : LinksOnly s' s'' touched') :
    LinksOnly s s'' fun a => touched a ∨ touched' a where
  fundMaxId := h'.fundMaxId.trans h.fundMaxId
  balance a := (h'.balance a).trans (h.balance a)
  entry a ha := by
    refine (h'.entry a ?_).trans (h.entry a ha)
    unfold Live
    rwa [h.balance]
  fundById a ha := by
    rw [not_or] at ha
    exact (h'.fundById a ha.2).trans (h.fundById a ha.1)

/-- `x` was extracted from the live item `id`: the storage `s₁` and the local copy `item₁` are
what `delete_fund` or `decrease_fund_balance` return, and the invariant holds once the copy is
written back. -/
structure Extracted (intact : FundType → Prop) (s : FundStore) (lay : Layout) (id x : ℕ)
    (s₁ : FundStore) (item₁ : FundItem) : Prop where
  pos : 0 < x
  le : x ≤ (s.fundById id).balance
  userId : item₁.userId = (s.fundById id).userId
  fundDesc : item₁.fundDesc = (s.fundById id).fundDesc
  balance : item₁.balance = (s.fundById id).balance - x
  linked : Linked intact (s₁.setFund id item₁)
    (if x = (s.fundById id).balance then lay.erase (s.fundById id) id else lay)
  fundMaxId : s₁.fundMaxId = s.fundMaxId
  entry : ∀ a, a ≠ id → s.Live a → s₁.entry a = s.entry a
  typeTotal : ∀ t, s₁.typeTotal t + (if t = (s.fundById id).fundType then x else 0) = s.typeTotal t
  userTotal : ∀ u t, s₁.userTotal u t + (if (u, t) = (s.fundById id).userKey then x else 0) =
    s.userTotal u t

/-- **`delete_fund`** on a live item. -/
theorem Linked.deleteFund (h : Linked intact s lay) (hid : s.Live id) :
    ∃ s₁, s.deleteFund (s.fundById id) =
        .ok (s₁, (s.fundById id).emptied, (s.fundById id).balance) ∧
      Extracted intact s lay id (s.fundById id).balance s₁ (s.fundById id).emptied := by
  have ht := h.balance_le_typeTotal hid
  have hu := h.balance_le_userTotal hid
  obtain ⟨s', h1, tf1, uf1, ul1, tt1, fr1⟩ := deleteFromType_ok s id _ rfl rfl ht
  obtain ⟨s₁, h2, uf2, tf2, tl2, ut2, fr2⟩ := deleteFromUser_ok s' id
    { s.fundById id with typeListPrev := 0, typeListNext := 0 }
    (by rw [uf1]; rfl) (by rw [uf1]; rfl)
    (by unfold userTotal; rw [ul1]; exact hu)
  have fr := fr1.trans fr2
  have hmt := h.mem_own hid
  have hmu := h.mem_ownUser hid
  -- the neighbours are null or live, so every other cell is untouched
  have htouched : ∀ a, a ≠ 0 → ¬ s.Live a → s₁.fundById a = s.fundById a := by
    intro a ha0 hal
    have hne : ∀ b, b = 0 ∨ (∃ t, b ∈ lay.byType t) ∨ (∃ k, b ∈ lay.byUser k) → a ≠ b := by
      rintro b (rfl | ⟨t, hb⟩ | ⟨k, hb⟩) rfl
      · exact ha0 rfl
      · exact hal (h.live hb)
      · exact hal ((h.mem_byUser k a).mp hb).1
    refine fr.fundById a ?_
    rintro ((e | e) | (e | e))
    · exact hne _ ((h.types.prev_mem hmt).imp_right fun hm => .inl ⟨_, hm⟩) e
    · exact hne _ ((h.types.next_mem hmt).imp_right fun hm => .inl ⟨_, hm⟩) e
    · exact hne _ ((h.users.prev_mem hmu).imp_right fun hm => .inr ⟨_, hm⟩) e
    · exact hne _ ((h.users.next_mem hmu).imp_right fun hm => .inr ⟨_, hm⟩) e
  have hlive : ∀ a, (s₁.setFund id (s.fundById id).emptied).Live a ↔ a ≠ id ∧ s.Live a := by
    intro a
    rcases eq_or_ne a id with rfl | hne
    · simp [Live, FundItem.default]
    · simp [Live, hne, fr.balance]
  have hentry : ∀ a, a ≠ id → s.Live a →
      (s₁.setFund id (s.fundById id).emptied).entry a = s.entry a := by
    intro a hne ha
    rw [← fr.entry a ha]
    simp [entry, hne]
  have hbal : ∀ a, a ≠ id →
      ((s₁.setFund id (s.fundById id).emptied).fundById a).balance = (s.fundById a).balance := by
    intro a hne
    simp [hne, fr.balance]
  have htt : ∀ t, s₁.typeTotal t = if t = (s.fundById id).fundType then
      s.typeTotal t - (s.fundById id).balance else s.typeTotal t := by
    intro t
    have : s₁.typeTotal t = s'.typeTotal t := by simp only [FundStore.typeTotal, tl2]
    rw [this, tt1, Function.update_apply]
    split_ifs with e
    · rw [e]
    · rfl
  have hut : ∀ u t, s₁.userTotal u t = if (u, t) = (s.fundById id).userKey then
      s.userTotal u t - (s.fundById id).balance else s.userTotal u t := by
    intro u t
    rw [ut2]
    have hs : ∀ u t, s'.userTotal u t = s.userTotal u t := by
      intro u t
      simp only [FundStore.userTotal, ul1]
    split_ifs with e e' e'
    · obtain ⟨rfl, rfl⟩ := Prod.mk.inj e
      rw [hs]
    · exact absurd e e'
    · exact absurd e' e
    · exact hs u t
  refine ⟨s₁, ?_, hid, le_rfl, rfl, rfl, by simp, ?_, fr.fundMaxId, fun a _ ha => fr.entry a ha,
    fun t => ?_, fun u t => ?_⟩
  · simp only [FundStore.deleteFund, h1, ok_bind, h2, pure_eq_ok]
    rfl
  · rw [if_pos rfl]
    refine ⟨?_, ?_, fun t a => ?_, fun k a => ?_, fun a ha => ?_, fun a ha0 ha => ?_, fun t => ?_,
      fun u t => ?_⟩
    · refine (h.types.unlink hmt).congr (fun t => ?_) (fun t => ?_) (fun t a ha => ?_)
        fun t a ha => ?_
      · simp [tf2, tf1]
      · simp [tf2, tf1]
      · have hne := ((h.types.mem_erase hmt).mp ha).1
        rw [typeFamily_setFund, tf2, tf1]
        exact Function.update_of_ne hne _ _
      · have hne := ((h.types.mem_erase hmt).mp ha).1
        rw [typeFamily_setFund, tf2, tf1]
        exact Function.update_of_ne hne _ _
    · refine (h.users.unlink hmu).congr (fun k => ?_) (fun k => ?_) (fun k a ha => ?_)
        fun k a ha => ?_
      · simp [uf2, uf1, FundItem.userKey, FundItem.fundType]
      · simp [uf2, uf1, FundItem.userKey, FundItem.fundType]
      · have hne := ((h.users.mem_erase hmu).mp ha).1
        rw [userFamily_setFund, uf2, uf1]
        exact Function.update_of_ne hne _ _
      · have hne := ((h.users.mem_erase hmu).mp ha).1
        rw [userFamily_setFund, uf2, uf1]
        exact Function.update_of_ne hne _ _
    · rw [hlive]
      refine (h.types.mem_erase hmt).trans ?_
      rw [h.mem_byType]
      constructor
      · rintro ⟨hne, ha, rfl⟩
        exact ⟨⟨hne, ha⟩, fundType_eq_of_entry (hentry a hne ha)⟩
      · rintro ⟨⟨hne, ha⟩, rfl⟩
        exact ⟨hne, ha, (fundType_eq_of_entry (hentry a hne ha)).symm⟩
    · rw [hlive]
      refine (h.users.mem_erase hmu).trans ?_
      rw [h.mem_byUser]
      constructor
      · rintro ⟨hne, ha, rfl⟩
        exact ⟨⟨hne, ha⟩, userKey_eq_of_entry (hentry a hne ha)⟩
      · rintro ⟨⟨hne, ha⟩, rfl⟩
        exact ⟨hne, ha, (userKey_eq_of_entry (hentry a hne ha)).symm⟩
    · rw [hlive] at ha
      simpa [fr.fundMaxId] using h.le_max a ha.2
    · rw [hlive, not_and] at ha
      rcases eq_or_ne a id with rfl | hne
      · simp
      · have hal : ¬ s.Live a := ha hne
        simpa [hne] using (htouched a ha0 hal).trans (h.cleared a ha0 hal)
    · have hs : (s₁.setFund id (s.fundById id).emptied).typeTotal t = s₁.typeTotal t := rfl
      have hc : (s₁.setFund id (s.fundById id).emptied).sumBalances
          ((lay.erase (s.fundById id) id).byType t) =
          s.sumBalances ((lay.erase (s.fundById id) id).byType t) :=
        sumBalances_congr fun a ha => hbal a ((h.types.mem_erase hmt).mp ha).1
      rw [hs, hc, htt, h.typeTotal_eq]
      rcases eq_or_ne t (s.fundById id).fundType with rfl | hne
      · have := sumBalances_erase (s := s) hmt
        simp only [Layout.erase, if_pos, Function.update_self]
        omega
      · simp [Layout.erase, hne]
    · have hs : (s₁.setFund id (s.fundById id).emptied).userTotal u t = s₁.userTotal u t := rfl
      have hc : (s₁.setFund id (s.fundById id).emptied).sumBalances
          ((lay.erase (s.fundById id) id).byUser (u, t)) =
          s.sumBalances ((lay.erase (s.fundById id) id).byUser (u, t)) :=
        sumBalances_congr fun a ha => hbal a ((h.users.mem_erase hmu).mp ha).1
      rw [hs, hc, hut, h.userTotal_eq]
      rcases eq_or_ne (u, t) (s.fundById id).userKey with e | hne
      · have := sumBalances_erase (s := s) hmu
        simp only [Layout.erase, e, if_pos, Function.update_self]
        omega
      · simp [Layout.erase, hne]
  · rw [htt]
    split_ifs with e
    · subst e
      omega
    · rfl
  · rw [hut]
    split_ifs with e
    · obtain ⟨rfl, rfl⟩ := Prod.mk.inj e
      omega
    · rfl

/-! ### Changing a balance in place -/

/-- The cached totals of the two lists of an item. -/
def retotal (s : FundStore) (item : FundItem) (typeTotal userTotal : ℕ) : FundStore :=
  (s.setTypeList item.fundType
      { s.fundListByType item.fundType with totalBalance := typeTotal }).setUserList item.userKey
    { s.fundListByUser item.userKey with totalBalance := userTotal }

/-- The balance of the item `id` becomes `b`, and the totals of its two lists change with it. -/
def reweigh (s : FundStore) (id b typeTotal userTotal : ℕ) : FundStore :=
  (s.retotal (s.fundById id) typeTotal userTotal).setFund id { s.fundById id with balance := b }

section Reweigh

variable {b tt ut : ℕ}

@[simp]
theorem typeFamily_reweigh : (s.reweigh id b tt ut).typeFamily = s.typeFamily := by
  unfold reweigh retotal
  rw [typeFamily_setFund, typeFamily_setUserList, typeFamily_setTypeList]
  exact Family.ext (Function.update_eq_self id s.typeFamily.next)
    (Function.update_eq_self id s.typeFamily.prev) (Function.update_eq_self _ s.typeFamily.first)
    (Function.update_eq_self _ s.typeFamily.last)

@[simp]
theorem userFamily_reweigh : (s.reweigh id b tt ut).userFamily = s.userFamily := by
  unfold reweigh retotal
  rw [userFamily_setFund, userFamily_setUserList, userFamily_setTypeList]
  exact Family.ext (Function.update_eq_self id s.userFamily.next)
    (Function.update_eq_self id s.userFamily.prev) (Function.update_eq_self _ s.userFamily.first)
    (Function.update_eq_self _ s.userFamily.last)

theorem reweigh_fundById (hb : 0 < b) (a : ℕ) : (s.reweigh id b tt ut).fundById a =
    if a = id then { s.fundById id with balance := b } else s.fundById a := by
  have hst : ({ s.fundById id with balance := b } : FundItem).stored =
      { s.fundById id with balance := b } := FundItem.stored_of_balance_pos hb
  unfold reweigh
  rw [setFund_fundById, Function.update_apply, hst]
  rfl

theorem typeTotal_retotal (s : FundStore) (item : FundItem) (tt ut : ℕ) (t : FundType) :
    (s.retotal item tt ut).typeTotal t =
    if t = item.fundType then tt else s.typeTotal t := by
  unfold retotal typeTotal
  simp only [setUserList_fundListByType, setTypeList_fundListByType, Function.update_apply,
    apply_ite FundsListInfo.totalBalance]

theorem userTotal_retotal (s : FundStore) (item : FundItem) (tt ut u : ℕ) (t : FundType) :
    (s.retotal item tt ut).userTotal u t =
    if (u, t) = item.userKey then ut else s.userTotal u t := by
  unfold retotal userTotal
  simp only [setUserList_fundListByUser, setTypeList_fundListByUser, Function.update_apply,
    apply_ite FundsListInfo.totalBalance]

theorem reweigh_userKey (hb : 0 < b) (a : ℕ) :
    ((s.reweigh id b tt ut).fundById a).userKey = (s.fundById a).userKey := by
  rw [reweigh_fundById hb]
  split_ifs with e
  · subst e
    rfl
  · rfl

theorem reweigh_balance (hb : 0 < b) (a : ℕ) : ((s.reweigh id b tt ut).fundById a).balance =
    if a = id then b else (s.fundById a).balance := by
  rw [reweigh_fundById hb]
  split_ifs <;> rfl

/-- The sum of a list moves with the balance of its member. -/
theorem sumBalances_reweigh (s : FundStore) (id tt ut : ℕ) (hb : 0 < b) {ids : List ℕ}
    (hnd : ids.Nodup) :
    (s.reweigh id b tt ut).sumBalances ids + (if id ∈ ids then (s.fundById id).balance else 0) =
      s.sumBalances ids + if id ∈ ids then b else 0 := by
  by_cases hm : id ∈ ids
  · have h1 := sumBalances_erase (s := s) hm
    have h2 := sumBalances_erase (s := s.reweigh id b tt ut) hm
    have h3 : (s.reweigh id b tt ut).sumBalances (ids.erase id) = s.sumBalances (ids.erase id) :=
      sumBalances_congr fun a ha => by rw [reweigh_balance hb, if_neg (hnd.mem_erase_iff.mp ha).1]
    rw [reweigh_balance hb, if_pos rfl] at h2
    simp only [if_pos hm]
    omega
  · simp only [if_neg hm, Nat.add_zero]
    refine sumBalances_congr fun a ha => ?_
    rw [reweigh_balance hb, if_neg]
    rintro rfl
    exact hm ha

/-- Changing a balance in place keeps the invariant, when the totals follow. -/
theorem Linked.reweigh (h : Linked intact s lay) (hid : s.Live id) (hb : 0 < b)
    (htt : tt + (s.fundById id).balance = s.typeTotal (s.fundById id).fundType + b)
    (hut : ut + (s.fundById id).balance =
      s.userTotal (s.fundById id).userId (s.fundById id).fundType + b) :
    Linked intact (s.reweigh id b tt ut) lay := by
  have hlive : ∀ a, (s.reweigh id b tt ut).Live a ↔ s.Live a := by
    intro a
    unfold Live
    rw [reweigh_balance hb]
    split_ifs with e
    · subst e
      exact ⟨fun _ => hid, fun _ => hb⟩
    · rfl
  have hkey : ∀ a, ((s.reweigh id b tt ut).fundById a).userKey = (s.fundById a).userKey :=
    reweigh_userKey hb
  have htype : ∀ a, ((s.reweigh id b tt ut).fundById a).fundType = (s.fundById a).fundType :=
    fun a => congrArg Prod.snd (hkey a)
  refine ⟨?_, ?_, fun t a => ?_, fun k a => ?_, fun a ha => ?_, fun a ha0 ha => ?_, fun t => ?_,
    fun u t => ?_⟩
  · rw [typeFamily_reweigh]
    exact h.types
  · rw [userFamily_reweigh]
    exact h.users
  · rw [hlive, h.mem_byType, htype]
  · rw [hlive, h.mem_byUser, hkey]
  · exact h.le_max a ((hlive a).mp ha)
  · rw [hlive] at ha
    rw [reweigh_fundById hb, if_neg (by rintro rfl; exact ha hid)]
    exact h.cleared a ha0 ha
  · have h1 := sumBalances_reweigh s id tt ut hb (h.types.nodup t)
    refine (typeTotal_retotal s _ tt ut t).trans ?_
    simp only [h.mem_byType, hid, true_and, ← h.typeTotal_eq] at h1
    split_ifs with e
    · subst e
      simp only [if_pos] at h1
      omega
    · simp only [if_neg (Ne.symm e), Nat.add_zero] at h1
      exact h1.symm
  · have h1 := sumBalances_reweigh s id tt ut hb
      (h.users.nodup (u, t))
    refine (userTotal_retotal s _ tt ut u t).trans ?_
    simp only [h.mem_byUser, hid, true_and, ← h.userTotal_eq] at h1
    split_ifs with e
    · simp only [if_pos e.symm] at h1
      obtain ⟨rfl, rfl⟩ := Prod.mk.inj e
      omega
    · simp only [if_neg (Ne.symm e), Nat.add_zero] at h1
      exact h1.symm

end Reweigh

/-- **`decrease_fund_balance`** by less than the balance of a live item. -/
theorem Linked.decreasePart (h : Linked intact s lay) {x : ℕ} (hx : 0 < x)
    (hlt : x < (s.fundById id).balance) :
    ∃ s₁, s.decreaseFundBalance x (s.fundById id) =
        .ok (s₁, 0, { s.fundById id with balance := (s.fundById id).balance - x }, x) ∧
      Extracted intact s lay id x s₁
        { s.fundById id with balance := (s.fundById id).balance - x } := by
  have hid : s.Live id := lt_trans hx hlt
  have ht := h.balance_le_typeTotal hid
  have hu := h.balance_le_userTotal hid
  have e1 : bigSub (s.fundListByType (s.fundById id).fundType).totalBalance x =
      .ok (s.typeTotal (s.fundById id).fundType - x) := bigSub_of_le (hlt.le.trans ht)
  have e2 : bigSub (s.fundListByUser ((s.fundById id).userId,
      (s.fundById id).fundType)).totalBalance x =
      .ok (s.userTotal (s.fundById id).userId (s.fundById id).fundType - x) :=
    bigSub_of_le (hlt.le.trans hu)
  have hlinked : Linked intact (s.reweigh id ((s.fundById id).balance - x)
      (s.typeTotal (s.fundById id).fundType - x)
      (s.userTotal (s.fundById id).userId (s.fundById id).fundType - x)) lay :=
    h.reweigh hid (by omega) (by omega) (by omega)
  refine ⟨s.retotal (s.fundById id) (s.typeTotal (s.fundById id).fundType - x)
    (s.userTotal (s.fundById id).userId (s.fundById id).fundType - x), ?_, hx, hlt.le, rfl, rfl,
    rfl, ?_, rfl, fun _ _ _ => rfl, fun t => ?_, fun u t => ?_⟩
  · unfold FundStore.decreaseFundBalance
    rw [if_neg (by omega)]
    simp only [e1, e2, ok_bind, setTypeList_fundListByUser, pure_eq_ok]
    rfl
  · rw [if_neg hlt.ne]
    exact hlinked
  · rw [typeTotal_retotal]
    split_ifs with e
    · subst e
      omega
    · rfl
  · rw [userTotal_retotal]
    split_ifs with e
    · obtain ⟨rfl, rfl⟩ := Prod.mk.inj e
      omega
    · rfl

/-- What a traversal takes from an item under a maximum: the item, or the rest of the maximum. -/
def takenBalance (optMaxAmount : Option ℕ) (balance : ℕ) : ℕ :=
  match optMaxAmount with
  | some maxAmount => min maxAmount balance
  | none => balance

/-- **Extraction**: `delete_fund` or `decrease_fund_balance`, as `split_convert_*` call them. -/
theorem Linked.extractBalance (h : Linked intact s lay) (hid : s.Live id) {optMaxAmount : Option ℕ}
    (hmax : optMaxAmount ≠ some 0) :
    ∃ s₁ item₁, s.extractBalance optMaxAmount (s.fundById id) =
        .ok (s₁, optMaxAmount.map (· - takenBalance optMaxAmount (s.fundById id).balance), item₁,
          takenBalance optMaxAmount (s.fundById id).balance) ∧
      Extracted intact s lay id (takenBalance optMaxAmount (s.fundById id).balance) s₁ item₁ := by
  obtain ⟨s₁, hdel, hext⟩ := h.deleteFund hid
  cases optMaxAmount with
  | none =>
    refine ⟨s₁, _, ?_, hext⟩
    simp [FundStore.extractBalance, hdel, takenBalance]
  | some maxAmount =>
    have hpos : 0 < maxAmount := Nat.pos_of_ne_zero fun e => hmax (by rw [e])
    rcases le_or_gt (s.fundById id).balance maxAmount with hle | hlt
    · have htake : takenBalance (some maxAmount) (s.fundById id).balance =
          (s.fundById id).balance := min_eq_right hle
      rw [htake]
      refine ⟨s₁, _, ?_, hext⟩
      simp [FundStore.extractBalance, FundStore.decreaseFundBalance, hle, hdel]
    · have htake : takenBalance (some maxAmount) (s.fundById id).balance = maxAmount :=
        min_eq_left hlt.le
      obtain ⟨s₂, hdec, hext₂⟩ := h.decreasePart hpos hlt
      rw [htake]
      refine ⟨s₂, _, ?_, hext₂⟩
      simp [FundStore.extractBalance, hdec]

end FundStore

end Delegation
