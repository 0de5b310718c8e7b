import Delegation.Fund.Extract

/-!
# Increasing the balance of a user

`increase_fund_balance` merges the amount into the last item of the user and type
(`Linked.coalesce`) or appends a new item (`Linked.create`). The callers of
`delete_fund` and `decrease_fund_balance` run it before they write their local copy back;
`setFund_increaseFundBalance` shows that it may as well run after that write.
-/

namespace Delegation

open Outcome DoublyLinked

/-- The layout with a new item at the end of its two lists. -/
@[simps]
def Layout.push (lay : Layout) (u : ℕ) (t : FundType) (id : ℕ) : Layout where
  byType := Function.update lay.byType t (lay.byType t ++ [id])
  byUser := Function.update lay.byUser (u, t) (lay.byUser (u, t) ++ [id])

/-- A new item, before it is linked. -/
def FundItem.fresh (userId : ℕ) (fundDesc : FundDescription) (balance : ℕ) : FundItem where
  fundDesc := fundDesc
  userId := userId
  balance := balance
  typeListNext := 0
  typeListPrev := 0
  userListNext := 0
  userListPrev := 0

namespace FundStore

variable {intact : FundType → Prop} {s : FundStore} {lay : Layout} {id u x : ℕ} {t : FundType}
  {d : FundDescription} {item : FundItem}

/-- The amount is merged into the last item of the user and type. -/
def Coalesces (s : FundStore) (u : ℕ) (d : FundDescription) : Prop :=
  d.fundType.allowCoalesce ∧ ¬ (s.fundListByUser (u, d.fundType)).isDefault ∧
    (s.fundById (s.fundListByUser (u, d.fundType)).last).fundDesc = d

instance : Decidable (s.Coalesces u d) := by
  unfold Coalesces
  infer_instance

theorem increaseFundBalance_of_coalesces (hx : x ≠ 0) (hc : s.Coalesces u d) :
    s.increaseFundBalance u d x =
      ((s.setTypeList d.fundType { s.fundListByType d.fundType with
          totalBalance := (s.fundListByType d.fundType).totalBalance + x }).setFund
        (s.fundListByUser (u, d.fundType)).last
        { s.fundById (s.fundListByUser (u, d.fundType)).last with
          balance := (s.fundById (s.fundListByUser (u, d.fundType)).last).balance + x }).setUserList
        (u, d.fundType) { s.fundListByUser (u, d.fundType) with
          totalBalance := (s.fundListByUser (u, d.fundType)).totalBalance + x } := by
  have ht : (s.fundById (s.fundListByUser (u, d.fundType)).last).fundType = d.fundType :=
    congrArg FundDescription.fundType hc.2.2
  unfold increaseFundBalance
  simp only [if_neg hx]
  rw [ht]
  exact if_pos hc

theorem increaseFundBalance_of_not_coalesces (hx : x ≠ 0) (hc : ¬ s.Coalesces u d) :
    s.increaseFundBalance u d x = s.createFund u d x := by
  unfold increaseFundBalance
  simp only [if_neg hx]
  exact if_neg hc

@[simp]
theorem increaseFundBalance_zero : s.increaseFundBalance u d 0 = s := rfl

/-! ### Joining the lists -/

theorem LinksOnly.updateFund {f : FundItem → FundItem} {p : ℕ}
    (hf : ∀ item, (f item).entry = item.entry) : LinksOnly s (s.updateFund p f) fun a => a = p where
  fundMaxId := rfl
  balance := updateFund_balance (fun item => congrArg Entry.balance (hf item)) s p
  entry _ ha := updateFund_entry hf ha p
  fundById _ ha := updateFund_fundById_of_ne ha s f

theorem addFundToTypeList_of_isDefault (hd : (s.fundListByType item.fundType).isDefault = true) :
    s.addFundToTypeList id item = (s.setTypeList item.fundType
      ⟨(s.fundListByType item.fundType).totalBalance + item.balance, id, id⟩, item) := by
  unfold addFundToTypeList
  simp only [hd, if_true]

theorem addFundToTypeList_of_not_isDefault
    (hd : (s.fundListByType item.fundType).isDefault = false) :
    s.addFundToTypeList id item = ((s.updateFund (s.fundListByType item.fundType).last
        fun prevFund => { prevFund with typeListNext := id }).setTypeList item.fundType
      ⟨(s.fundListByType item.fundType).totalBalance + item.balance,
        (s.fundListByType item.fundType).first, id⟩,
      { item with typeListPrev := (s.fundListByType item.fundType).last }) := by
  unfold addFundToTypeList
  simp only [hd, Bool.false_eq_true, if_false]

theorem addFundToUserList_of_isDefault (hd : (s.fundListByUser item.userKey).isDefault = true) :
    s.addFundToUserList id item = (s.setUserList item.userKey
      ⟨(s.fundListByUser item.userKey).totalBalance + item.balance, id, id⟩, item) := by
  unfold FundItem.userKey at *
  unfold addFundToUserList
  simp only [hd, if_true]

theorem addFundToUserList_of_not_isDefault
    (hd : (s.fundListByUser item.userKey).isDefault = false) :
    s.addFundToUserList id item = ((s.updateFund (s.fundListByUser item.userKey).last
        fun prevFund => { prevFund with userListNext := id }).setUserList item.userKey
      ⟨(s.fundListByUser item.userKey).totalBalance + item.balance,
        (s.fundListByUser item.userKey).first, id⟩,
      { item with userListPrev := (s.fundListByUser item.userKey).last }) := by
  unfold FundItem.userKey at *
  unfold addFundToUserList
  simp only [hd, Bool.false_eq_true, if_false]

/-- The first half of `create_fund` for an item that has no type links yet. -/
theorem addFundToTypeList_spec (s : FundStore) (id : ℕ) (item : FundItem)
    (hp : item.typeListPrev = 0) :
    ∃ s', s.addFundToTypeList id item = (s', { item with typeListPrev :=
        if (s.fundListByType item.fundType).isDefault then 0
        else (s.fundListByType item.fundType).last }) ∧
      { s'.typeFamily with
        next := Function.update s'.typeFamily.next id 0
        prev := Function.update s'.typeFamily.prev id
          (if (s.fundListByType item.fundType).isDefault then 0
          else (s.fundListByType item.fundType).last) } =
        s.typeFamily.pushBack item.fundType id (s.fundListByType item.fundType).isDefault ∧
      s'.userFamily = s.userFamily ∧ s'.fundListByUser = s.fundListByUser ∧
      (∀ t, s'.typeTotal t = s.typeTotal t + if t = item.fundType then item.balance else 0) ∧
      LinksOnly s s' fun a => a = (s.fundListByType item.fundType).last := by
  rcases hd : (s.fundListByType item.fundType).isDefault with _ | _
  · rw [addFundToTypeList_of_not_isDefault hd]
    have hl := LinksOnly.updateFund (s := s) (p := (s.fundListByType item.fundType).last)
      (f := fun prevFund => { prevFund with typeListNext := id }) fun _ => rfl
    refine ⟨_, rfl, ?_, ?_, rfl, fun t => ?_,
      hl.fundMaxId, hl.balance, hl.entry, hl.fundById⟩
    · simp [Family.pushBack, Links.pushBack, Family.list]
    · simp
    · simp only [typeTotal, setTypeList_fundListByType, Function.update_apply]
      split_ifs with e
      · rw [e]
      · rfl
  · rw [addFundToTypeList_of_isDefault hd]
    refine ⟨_, Prod.ext rfl ?_, ?_, rfl, rfl, fun t => ?_, rfl, fun a => rfl, fun a _ => rfl,
      fun a _ => rfl⟩
    · simp only [if_true, ← hp]
    · simp [Family.pushBack, Links.pushBack, Family.list]
    · simp only [typeTotal, setTypeList_fundListByType, Function.update_apply]
      split_ifs with e
      · rw [e]
      · rfl

/-- The second half of `create_fund` for an item that has no user links yet. -/
theorem addFundToUserList_spec (s : FundStore) (id : ℕ) (item : FundItem)
    (hp : item.userListPrev = 0) :
    ∃ s', s.addFundToUserList id item = (s', { item with userListPrev :=
        if (s.fundListByUser item.userKey).isDefault then 0
        else (s.fundListByUser item.userKey).last }) ∧
      { s'.userFamily with
        next := Function.update s'.userFamily.next id 0
        prev := Function.update s'.userFamily.prev id
          (if (s.fundListByUser item.userKey).isDefault then 0
          else (s.fundListByUser item.userKey).last) } =
        s.userFamily.pushBack item.userKey id (s.fundListByUser item.userKey).isDefault ∧
      s'.typeFamily = s.typeFamily ∧ s'.fundListByType = s.fundListByType ∧
      (∀ u t, s'.userTotal u t =
        s.userTotal u t + if (u, t) = item.userKey then item.balance else 0) ∧
      LinksOnly s s' fun a => a = (s.fundListByUser item.userKey).last := by
  rcases hd : (s.fundListByUser item.userKey).isDefault with _ | _
  · rw [addFundToUserList_of_not_isDefault hd]
    have hl := LinksOnly.updateFund (s := s) (p := (s.fundListByUser item.userKey).last)
      (f := fun prevFund => { prevFund with userListNext := id }) fun _ => rfl
    refine ⟨_, rfl, ?_, ?_, rfl, fun u t => ?_,
      hl.fundMaxId, hl.balance, hl.entry, hl.fundById⟩
    · simp [Family.pushBack, Links.pushBack, Family.list]
    · simp
    · simp only [userTotal, setUserList_fundListByUser, Function.update_apply]
      split_ifs with e
      · rw [e]
      · rfl
  · rw [addFundToUserList_of_isDefault hd]
    refine ⟨_, Prod.ext rfl ?_, ?_, rfl, rfl, fun u t => ?_, rfl, fun a => rfl, fun a _ => rfl,
      fun a _ => rfl⟩
    · simp only [if_true, ← hp]
    · simp [Family.pushBack, Links.pushBack, Family.list]
    · simp only [userTotal, setUserList_fundListByUser, Function.update_apply]
      split_ifs with e
      · rw [e]
      · rfl

/-- What `create_fund` does to a store that is linked. -/
structure Created (s : FundStore) (u : ℕ) (d : FundDescription) (x : ℕ) (s' : FundStore) :
    Prop where
  fundMaxId : s'.fundMaxId = s.fundMaxId + 1
  new : s'.entry (s.fundMaxId + 1) = ⟨u, d, x⟩
  entry : ∀ a, s.Live a → a ≠ s.fundMaxId + 1 → s'.entry a = s.entry a
  typeFamily : s'.typeFamily = s.typeFamily.pushBack d.fundType (s.fundMaxId + 1)
    (s.fundListByType d.fundType).isDefault
  userFamily : s'.userFamily = s.userFamily.pushBack (u, d.fundType) (s.fundMaxId + 1)
    (s.fundListByUser (u, d.fundType)).isDefault
  balance : ∀ a, a ≠ s.fundMaxId + 1 → (s'.fundById a).balance = (s.fundById a).balance
  fundById : ∀ a, a ≠ s.fundMaxId + 1 → a ≠ (s.fundListByType d.fundType).last →
    a ≠ (s.fundListByUser (u, d.fundType)).last → s'.fundById a = s.fundById a
  typeTotal : ∀ t, s'.typeTotal t = s.typeTotal t + if t = d.fundType then x else 0
  userTotal : ∀ v t, s'.userTotal v t = s.userTotal v t + if (v, t) = (u, d.fundType) then x else 0

/-- `create_fund` as the composition of its three writes. -/
theorem createFund_of_ne_zero (hx : x ≠ 0) : s.createFund u d x =
    let typed := (s.setFundMaxId (s.fundMaxId + 1)).addFundToTypeList (s.fundMaxId + 1)
      (.fresh u d x)
    let listed := typed.1.addFundToUserList (s.fundMaxId + 1) typed.2
    listed.1.setFund (s.fundMaxId + 1) listed.2 :=
  if_neg hx

theorem createFund_spec (hx : x ≠ 0) : Created s u d x (s.createFund u d x) := by
  obtain ⟨s₁, e₁, tf₁, uf₁, ul₁, tt₁, fr₁⟩ := addFundToTypeList_spec
    (s.setFundMaxId (s.fundMaxId + 1)) (s.fundMaxId + 1) (.fresh u d x) rfl
  obtain ⟨s₂, e₂, uf₂, tf₂, tl₂, ut₂, fr₂⟩ := addFundToUserList_spec s₁
    (s.fundMaxId + 1) ({ FundItem.fresh u d x with typeListPrev :=
      if (s.fundListByType d.fundType).isDefault then 0
      else (s.fundListByType d.fundType).last }) rfl
  have hstore : s.createFund u d x = s₂.setFund (s.fundMaxId + 1)
      { FundItem.fresh u d x with
        typeListPrev := if (s.fundListByType d.fundType).isDefault then 0
          else (s.fundListByType d.fundType).last
        userListPrev := if (s.fundListByUser (u, d.fundType)).isDefault then 0
          else (s.fundListByUser (u, d.fundType)).last } := by
    rw [createFund_of_ne_zero hx]
    simp only
    rw [e₁]
    refine (congrArg (fun r : FundStore × FundItem => r.1.setFund (s.fundMaxId + 1) r.2)
      e₂).trans ?_
    rw [ul₁]
    rfl
  have fr := fr₁.trans fr₂
  rw [hstore]
  refine ⟨?_, ?_, fun a ha hne => ?_, ?_, ?_, fun a ha => ?_, fun a ha h1 h2 => ?_, fun t => ?_,
    fun v t => ?_⟩
  · exact fr.fundMaxId
  · rw [FundStore.entry, setFund_fundById, Function.update_self,
      FundItem.stored_of_balance_pos (Nat.pos_of_ne_zero hx)]
    rfl
  · refine Eq.trans ?_ (fr.entry a ha)
    rw [FundStore.entry, setFund_fundById, Function.update_of_ne hne]
    rfl
  · rw [typeFamily_setFund, tf₂]
    exact tf₁
  · rw [ul₁, uf₁] at uf₂
    rw [userFamily_setFund]
    exact uf₂
  · rw [setFund_fundById, Function.update_of_ne ha]
    exact fr.balance a
  · rw [setFund_fundById, Function.update_of_ne ha]
    refine fr.fundById a ?_
    rw [not_or]
    refine ⟨h1, ?_⟩
    rw [ul₁]
    exact h2
  · refine Eq.trans ?_ (tt₁ t)
    simp only [FundStore.typeTotal, setFund_fundListByType, tl₂]
  · refine (ut₂ v t).trans ?_
    simp only [FundStore.userTotal, ul₁]
    rfl

/-- **`create_fund`** appends a new item to its two lists. -/
theorem Linked.create (h : Linked intact s lay) (hx : x ≠ 0) :
    Linked intact (s.createFund u d x) (lay.push u d.fundType (s.fundMaxId + 1)) := by
  have hc : Created s u d x (s.createFund u d x) := createFund_spec hx
  have hdead : ¬ s.Live (s.fundMaxId + 1) := fun hl => absurd (h.le_max _ hl) (by omega)
  have hnt : ∀ t, s.fundMaxId + 1 ∉ lay.byType t := fun t hm => hdead (h.live hm)
  have hnu : ∀ k, s.fundMaxId + 1 ∉ lay.byUser k := fun k hm =>
    hdead ((h.mem_byUser k _).mp hm).1
  have hnew : ((s.createFund u d x).fundById (s.fundMaxId + 1)).balance = x :=
    congrArg Entry.balance hc.new
  have hlive : ∀ a, (s.createFund u d x).Live a ↔ s.Live a ∨ a = s.fundMaxId + 1 := by
    intro a
    unfold Live
    rcases eq_or_ne a (s.fundMaxId + 1) with rfl | hne
    · simpa [hnew] using Nat.pos_of_ne_zero hx
    · simp [hc.balance a hne, hne]
  have hentry : ∀ a, s.Live a → (s.createFund u d x).entry a = s.entry a := fun a ha =>
    hc.entry a ha fun e => hdead (e ▸ ha)
  have hsum : ∀ ids : List ℕ, s.fundMaxId + 1 ∉ ids →
      (s.createFund u d x).sumBalances ids = s.sumBalances ids := fun ids hm =>
    sumBalances_congr fun a ha => hc.balance a fun e => hm (e ▸ ha)
  refine ⟨?_, ?_, fun t a => ?_, fun k a => ?_, fun a ha => ?_, fun a ha0 ha => ?_, fun t => ?_,
    fun v t => ?_⟩
  · rw [hc.typeFamily]
    exact h.types.pushBack h.typeList_isDefault_iff hnt (Nat.succ_ne_zero _)
  · rw [hc.userFamily]
    exact h.users.pushBack h.userList_isDefault_iff hnu (Nat.succ_ne_zero _)
  · refine Family.mem_pushBack.trans ?_
    rw [hlive, h.mem_byType]
    constructor
    · rintro (⟨ha, rfl⟩ | ⟨rfl, rfl⟩)
      · exact ⟨.inl ha, fundType_eq_of_entry (hentry a ha)⟩
      · exact ⟨.inr rfl, congrArg Entry.fundType hc.new⟩
    · rintro ⟨ha | rfl, rfl⟩
      · exact .inl ⟨ha, (fundType_eq_of_entry (hentry a ha)).symm⟩
      · exact .inr ⟨rfl, congrArg Entry.fundType hc.new⟩
  · refine Family.mem_pushBack.trans ?_
    have hkey : ((s.createFund u d x).fundById (s.fundMaxId + 1)).userKey = (u, d.fundType) :=
      congrArg (fun e : Entry => (e.userId, e.fundType)) hc.new
    rw [hlive, h.mem_byUser]
    constructor
    · rintro (⟨ha, rfl⟩ | ⟨rfl, rfl⟩)
      · exact ⟨.inl ha, userKey_eq_of_entry (hentry a ha)⟩
      · exact ⟨.inr rfl, hkey⟩
    · rintro ⟨ha | rfl, rfl⟩
      · exact .inl ⟨ha, (userKey_eq_of_entry (hentry a ha)).symm⟩
      · exact .inr ⟨rfl, hkey⟩
  · rw [hc.fundMaxId]
    rcases (hlive a).mp ha with ha | rfl
    · exact (h.le_max a ha).trans (Nat.le_succ _)
    · exact le_rfl
  · rw [hlive, not_or] at ha
    have hne : ∀ b, b = 0 ∨ (∃ t, b ∈ lay.byType t) ∨ (∃ k, b ∈ lay.byUser k) → a ≠ b := by
      rintro b (rfl | ⟨t, hb⟩ | ⟨k, hb⟩) rfl
      · exact ha0 rfl
      · exact ha.1 (h.live hb)
      · exact ha.1 ((h.mem_byUser k a).mp hb).1
    rw [hc.fundById a ha.2 (hne _ ((h.types.last_mem _).imp_right fun hm => .inl ⟨_, hm⟩))
      (hne _ ((h.users.last_mem _).imp_right fun hm => .inr ⟨_, hm⟩))]
    exact h.cleared a ha0 ha.1
  · rw [hc.typeTotal, h.typeTotal_eq]
    rcases eq_or_ne t d.fundType with rfl | hne
    · simp [Layout.push, hsum _ (hnt _), hnew]
    · simp [Layout.push, hsum _ (hnt _), hne]
  · rw [hc.userTotal, h.userTotal_eq]
    rcases eq_or_ne (v, t) (u, d.fundType) with e | hne
    · obtain ⟨rfl, rfl⟩ := Prod.mk.inj e
      simp [Layout.push, hsum _ (hnu _), hnew]
    · simp only [Layout.push, if_neg hne, Function.update_of_ne hne, hsum _ (hnu _), Nat.add_zero]

/-- **Coalescing** adds to the balance of the last item of the user and type. -/
theorem Linked.coalesce (h : Linked intact s lay) (hx : x ≠ 0) (hc : s.Coalesces u d) :
    (s.fundListByUser (u, d.fundType)).last ∈ lay.byUser (u, d.fundType) ∧
      s.increaseFundBalance u d x = s.reweigh (s.fundListByUser (u, d.fundType)).last
        ((s.fundById (s.fundListByUser (u, d.fundType)).last).balance + x)
        (s.typeTotal d.fundType + x) (s.userTotal u d.fundType + x) := by
  have hne : lay.byUser (u, d.fundType) ≠ [] := fun e =>
    hc.2.1 (h.userList_isDefault_iff.mpr e)
  have hlast : (s.fundListByUser (u, d.fundType)).last ∈ lay.byUser (u, d.fundType) := by
    have hr := (h.users.rep (u, d.fundType) trivial).last
    change (s.fundListByUser (u, d.fundType)).last = _ at hr
    rw [hr, List.getLastD_eq_getLast?, List.getLast?_eq_some_getLast hne]
    exact List.getLast_mem hne
  have hkey : (s.fundById (s.fundListByUser (u, d.fundType)).last).userKey = (u, d.fundType) :=
    ((h.mem_byUser _ _).mp hlast).2
  have htype : (s.fundById (s.fundListByUser (u, d.fundType)).last).fundType = d.fundType :=
    congrArg Prod.snd hkey
  refine ⟨hlast, ?_⟩
  rw [increaseFundBalance_of_coalesces hx hc]
  unfold FundStore.reweigh retotal
  rw [hkey, htype]
  rfl

end FundStore

end Delegation
