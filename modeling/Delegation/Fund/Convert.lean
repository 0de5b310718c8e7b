import Delegation.Fund.Queue

/-!
# Converting one item

One accepted visit of a traversal: balance is extracted from an item, enters the queue of its new
description, and the local copy of the item is written back. `Converted` collects what this does
to the lists, the entries, the cached totals and the queues.

`split_convert_individual_fund` increases the target before its caller writes the copy back;
`setFund_increaseFundBalance` exchanges the two.
-/

namespace Delegation

open Outcome DoublyLinked

namespace FundStore

variable {intact : FundType → Prop} {s s' : FundStore} {lay lay' : Layout} {id id' u x p : ℕ}
  {t : FundType} {d : FundDescription} {item item' : FundItem}

/-! ### Writes to different cells commute -/

theorem setFund_comm (h : id ≠ id') :
    (s.setFund id item).setFund id' item' = (s.setFund id' item').setFund id item := by
  unfold setFund
  rw [Function.update_comm h]

theorem updateFund_setFund (h : id ≠ p) (f : FundItem → FundItem) :
    (s.setFund id item).updateFund p f = (s.updateFund p f).setFund id item := by
  unfold updateFund
  rw [setFund_fundById, Function.update_of_ne h.symm, setFund_comm h]

theorem addFundToTypeList_setFund (s : FundStore) (id id' : ℕ) (item item' : FundItem)
    (h : id ≠ (s.fundListByType item'.fundType).last) :
    (s.setFund id item).addFundToTypeList id' item' =
      ((s.addFundToTypeList id' item').1.setFund id item, (s.addFundToTypeList id' item').2) := by
  rcases hd : (s.fundListByType item'.fundType).isDefault with _ | _
  · rw [addFundToTypeList_of_not_isDefault hd,
      addFundToTypeList_of_not_isDefault (s := s.setFund id item) hd]
    rw [setFund_fundListByType, updateFund_setFund h]
    rfl
  · rw [addFundToTypeList_of_isDefault hd,
      addFundToTypeList_of_isDefault (s := s.setFund id item) hd]
    rfl

theorem addFundToUserList_setFund (s : FundStore) (id id' : ℕ) (item item' : FundItem)
    (h : id ≠ (s.fundListByUser item'.userKey).last) :
    (s.setFund id item).addFundToUserList id' item' =
      ((s.addFundToUserList id' item').1.setFund id item, (s.addFundToUserList id' item').2) := by
  rcases hd : (s.fundListByUser item'.userKey).isDefault with _ | _
  · rw [addFundToUserList_of_not_isDefault hd,
      addFundToUserList_of_not_isDefault (s := s.setFund id item) hd]
    rw [setFund_fundListByUser, updateFund_setFund h]
    rfl
  · rw [addFundToUserList_of_isDefault hd,
      addFundToUserList_of_isDefault (s := s.setFund id item) hd]
    rfl

theorem createFund_setFund (ht : id ≠ (s.fundListByType d.fundType).last)
    (hu : id ≠ (s.fundListByUser (u, d.fundType)).last) (hm : id ≠ s.fundMaxId + 1) :
    (s.setFund id item).createFund u d x = (s.createFund u d x).setFund id item := by
  rcases eq_or_ne x 0 with rfl | hx
  · rfl
  rw [createFund_of_ne_zero hx, createFund_of_ne_zero hx]
  obtain ⟨s₁, e₁, -, -, ul₁, -⟩ := addFundToTypeList_spec
    (s.setFundMaxId (s.fundMaxId + 1)) (s.fundMaxId + 1) (.fresh u d x) rfl
  have h1 := addFundToTypeList_setFund (s.setFundMaxId (s.fundMaxId + 1)) id (s.fundMaxId + 1) item
    (.fresh u d x) ht
  have h2 := fun p => addFundToUserList_setFund s₁ id (s.fundMaxId + 1) item
    { FundItem.fresh u d x with typeListPrev := p }
    (by rw [ul₁]; exact hu)
  rw [e₁] at h1
  have h1' : ((s.setFund id item).setFundMaxId (s.fundMaxId + 1)).addFundToTypeList
      (s.fundMaxId + 1) (.fresh u d x) = _ := h1
  simp only [setFund_fundMaxId, e₁, h1', h2]
  exact setFund_comm hm

/-- Writing another cell commutes with `increase_fund_balance`. -/
theorem setFund_increaseFundBalance (ht : id ≠ (s.fundListByType d.fundType).last)
    (hu : id ≠ (s.fundListByUser (u, d.fundType)).last) (hm : id ≠ s.fundMaxId + 1) :
    (s.increaseFundBalance u d x).setFund id item =
      (s.setFund id item).increaseFundBalance u d x := by
  rcases eq_or_ne x 0 with rfl | hx
  · rfl
  have hiff : (s.setFund id item).Coalesces u d ↔ s.Coalesces u d := by
    unfold Coalesces
    rw [setFund_fundListByUser, setFund_fundById, Function.update_of_ne hu.symm]
  by_cases hc : s.Coalesces u d
  · rw [increaseFundBalance_of_coalesces hx hc, increaseFundBalance_of_coalesces hx (hiff.mpr hc)]
    rw [setFund_fundListByUser, setFund_fundListByType, setFund_fundById,
      Function.update_of_ne hu.symm]
    unfold setFund setUserList setTypeList
    simp only [Function.update_comm hu]
  · rw [increaseFundBalance_of_not_coalesces hx hc,
      increaseFundBalance_of_not_coalesces hx (mt hiff.mp hc), createFund_setFund ht hu hm]

/-! ### After the extraction -/

section Extracted

variable {s₁ : FundStore} {item₁ : FundItem}

/-- The layout after the extraction of `x`. -/
def afterTake (s : FundStore) (lay : Layout) (id x : ℕ) : Layout :=
  if x = (s.fundById id).balance then lay.erase (s.fundById id) id else lay

theorem Linked.afterTake_byType (h : Linked intact s lay) (t : FundType) :
    (s.afterTake lay id x).byType t =
      if x = (s.fundById id).balance then (lay.byType t).erase id else lay.byType t := by
  unfold FundStore.afterTake
  split_ifs with hw
  · rw [Layout.erase_byType]
    rcases eq_or_ne t (s.fundById id).fundType with rfl | hne
    · rw [Function.update_self]
    · rw [Function.update_of_ne hne, List.erase_of_not_mem]
      exact fun hm => hne (h.fundType_eq hm).symm
  · rfl

theorem Linked.afterTake_byUser (h : Linked intact s lay) (k : ℕ × FundType) :
    (s.afterTake lay id x).byUser k =
      if x = (s.fundById id).balance then (lay.byUser k).erase id else lay.byUser k := by
  unfold FundStore.afterTake
  split_ifs with hw
  · rw [Layout.erase_byUser]
    rcases eq_or_ne k (s.fundById id).userKey with rfl | hne
    · rw [Function.update_self]
    · rw [Function.update_of_ne hne, List.erase_of_not_mem]
      exact fun hm => hne ((h.mem_byUser k id).mp hm).2.symm
  · rfl

theorem Extracted.entry_setFund (he : Extracted intact s lay id x s₁ item₁) {a : ℕ} (hne : a ≠ id)
    (ha : s.Live a) : (s₁.setFund id item₁).entry a = s.entry a := by
  rw [← he.entry a hne ha, FundStore.entry, setFund_fundById, Function.update_of_ne hne]
  rfl

/-- What is left of the item itself. -/
theorem Extracted.entry_part (he : Extracted intact s lay id x s₁ item₁)
    (hlt : x < (s.fundById id).balance) :
    (s₁.setFund id item₁).entry id =
      { s.entry id with balance := (s.fundById id).balance - x } := by
  have hpos : 0 < item₁.balance := by rw [he.balance]; omega
  rw [FundStore.entry, setFund_fundById, Function.update_self, FundItem.stored_of_balance_pos hpos]
  simp [FundItem.entry, he.userId, he.fundDesc, he.balance, FundStore.entry]

theorem Extracted.live_iff (he : Extracted intact s lay id x s₁ item₁) :
    (s₁.setFund id item₁).Live id ↔ x ≠ (s.fundById id).balance := by
  have := he.le
  simp only [Live, setFund_fundById, Function.update_self, FundItem.stored_balance, he.balance]
  omega

theorem Extracted.coherent (he : Extracted intact s lay id x s₁ item₁) (h : Linked intact s lay)
    (hco : Coherent s lay) : Coherent (s₁.setFund id item₁) (s.afterTake lay id x) := by
  intro u t
  have huser : ∀ a ∈ (s.afterTake lay id x).byType t,
      ((s₁.setFund id item₁).fundById a).userId = (s.fundById a).userId := by
    intro a ha
    rcases eq_or_ne a id with rfl | hne
    · have hlive := he.live_iff.mp (he.linked.live ha)
      exact congrArg Entry.userId (he.entry_part (lt_of_le_of_ne he.le hlive))
    · rw [h.afterTake_byType] at ha
      have ha' : a ∈ lay.byType t := by
        split_ifs at ha
        · exact List.mem_of_mem_erase ha
        · exact ha
      exact congrArg Entry.userId (he.entry_setFund hne (h.live ha'))
  rw [List.filter_congr fun a ha => by rw [huser a ha], h.afterTake_byType, h.afterTake_byUser,
    hco u t]
  split_ifs with hw
  · have hnd := h.types.nodup t
    rw [hnd.erase_eq_filter, (hnd.filter _).erase_eq_filter, List.filter_filter, List.filter_filter]
    simp only [Bool.and_comm]
  · rfl

/-- The queues of the other types do not notice. -/
theorem Extracted.queue_of_ne (he : Extracted intact s lay id x s₁ item₁)
    (h : Linked intact s lay) (ht : t ≠ (s.fundById id).fundType) :
    (s.afterTake lay id x).queue (s₁.setFund id item₁) t = lay.queue s t := by
  have hlist : (s.afterTake lay id x).byType t = lay.byType t := by
    rw [h.afterTake_byType, List.erase_of_not_mem fun hm => ht (h.fundType_eq hm).symm, ite_self]
  unfold Layout.queue
  rw [hlist]
  refine List.map_congr_left fun a ha => he.entry_setFund ?_ (h.live ha)
  rintro rfl
  exact ht (h.fundType_eq ha).symm

end Extracted

/-! ### What is left alone -/

/-- The items outside of the lists `keys` are the same, under the same ids. -/
def Untouched (keys : ℕ × FundType → Prop) (s s' : FundStore) : Prop :=
  ∀ id (e : Entry), 0 < e.balance → ¬ keys (e.userId, e.fundType) →
    (s'.entry id = e ↔ s.entry id = e)

theorem Untouched.refl (keys : ℕ × FundType → Prop) (s : FundStore) : Untouched keys s s :=
  fun _ _ _ _ => .rfl

theorem Untouched.trans {keys : ℕ × FundType → Prop} {s'' : FundStore}
    (h : Untouched keys s s') (h' : Untouched keys s' s'') : Untouched keys s s'' :=
  fun id e he hk => (h' id e he hk).trans (h id e he hk)

theorem Untouched.mono {keys keys' : ℕ × FundType → Prop} (h : Untouched keys s s')
    (hle : ∀ k, keys k → keys' k) : Untouched keys' s s' :=
  fun id e he hk => h id e he (mt (hle _) hk)

/-- Lists with the same ids, whose cells are the same, are left alone. -/
theorem Linked.untouched {keys : ℕ × FundType → Prop} (h : Linked intact s lay)
    (h' : Linked intact s' lay') (hlist : ∀ k, ¬ keys k → lay'.byUser k = lay.byUser k)
    (hentry : ∀ a, s.Live a → ¬ keys (s.fundById a).userKey → s'.entry a = s.entry a) :
    Untouched keys s s' := by
  intro id e he hk
  constructor
  · rintro rfl
    -- a live item is in the list of its key, and this list is an old one
    have hmem := (h'.mem_byUser (s'.fundById id).userKey id).mpr ⟨he, rfl⟩
    have hk' : ¬ keys (s'.fundById id).userKey := hk
    rw [hlist _ hk'] at hmem
    obtain ⟨hlive, hkey⟩ := (h.mem_byUser _ id).mp hmem
    exact (hentry id hlive (by rw [hkey]; exact hk)).symm
  · rintro rfl
    exact hentry id he hk

theorem Extracted.untouched {s₁ : FundStore} {item₁ : FundItem}
    (he : Extracted intact s lay id x s₁ item₁) (h : Linked intact s lay) :
    Untouched (· = (s.fundById id).userKey) s (s₁.setFund id item₁) := by
  have hlinked : Linked intact (s₁.setFund id item₁) (s.afterTake lay id x) := he.linked
  refine h.untouched hlinked (fun k hk => ?_) fun a ha hk => he.entry_setFund ?_ ha
  · rw [h.afterTake_byUser, List.erase_of_not_mem, ite_self]
    exact fun hm => hk ((h.mem_byUser k id).mp hm).2.symm
  · rintro rfl
    exact hk rfl

theorem Increased.untouched (hi : Increased intact s lay u d x s' lay') (h : Linked intact s lay) :
    Untouched (· = (u, d.fundType)) s s' :=
  h.untouched hi.linked hi.byUser hi.entry

/-! ### The conversion -/

/-- What the conversion of `x` from the item `id` to the description `d` does. -/
structure Converted (intact : FundType → Prop) (s : FundStore) (lay : Layout) (id : ℕ)
    (d : FundDescription) (x : ℕ) (s' : FundStore) (lay' : Layout) : Prop where
  pos : 0 < x
  le : x ≤ (s.fundById id).balance
  linked : Linked intact s' lay'
  fundMaxId : s.fundMaxId ≤ s'.fundMaxId
  byType : ∀ t, t ≠ d.fundType → lay'.byType t =
    if x = (s.fundById id).balance then (lay.byType t).erase id else lay.byType t
  byUser : ∀ u t, t ≠ d.fundType → lay'.byUser (u, t) =
    if x = (s.fundById id).balance then (lay.byUser (u, t)).erase id else lay.byUser (u, t)
  entry : ∀ a, a ≠ id → s.Live a → (s.fundById a).fundType ≠ d.fundType → s'.entry a = s.entry a
  part : (s.fundById id).fundType ≠ d.fundType → x < (s.fundById id).balance →
    s'.entry id = { s.entry id with balance := (s.fundById id).balance - x }
  typeTotal : ∀ t, s'.typeTotal t + (if t = (s.fundById id).fundType then x else 0) =
    s.typeTotal t + if t = d.fundType then x else 0
  userTotal : ∀ u t, s'.userTotal u t + (if (u, t) = (s.fundById id).userKey then x else 0) =
    s.userTotal u t + if (u, t) = ((s.fundById id).userId, d.fundType) then x else 0
  old : ∀ k a, a ≤ s.fundMaxId → a ∈ lay'.byUser k → a ∈ lay.byUser k
  coherent : Coherent s lay → Coherent s' lay'
  queue : Coherent s lay → (s.fundById id).fundType ≠ d.fundType → lay'.queue s' d.fundType =
    Entry.enqueue (lay.queue s d.fundType) ⟨(s.fundById id).userId, d, x⟩
  untouched : Untouched (fun k => k = (s.fundById id).userKey ∨
    k = ((s.fundById id).userId, d.fundType)) s s'

/-- The queues of the other types do not notice. -/
theorem Converted.queue_of_ne (hc : Converted intact s lay id d x s' lay')
    (h : Linked intact s lay) (ht : t ≠ d.fundType) (ht' : t ≠ (s.fundById id).fundType) :
    lay'.queue s' t = lay.queue s t := by
  have hlist : lay'.byType t = lay.byType t := by
    rw [hc.byType t ht, List.erase_of_not_mem fun hm => ht' (h.fundType_eq hm).symm, ite_self]
  unfold Layout.queue
  rw [hlist]
  refine List.map_congr_left fun a ha => hc.entry a ?_ (h.live ha) ?_
  · rintro rfl
    exact ht' (h.fundType_eq ha).symm
  · rw [h.fundType_eq ha]
    exact ht

/-- **`split_convert_individual_fund`** and the write-back that follows it. -/
theorem Linked.convert (h : Linked intact s lay) (hid : s.Live id) {optMaxAmount : Option ℕ}
    (hmax : optMaxAmount ≠ some 0)
    (hd : (s.fundById id).fundType ≠ d.fundType ∨
      takenBalance optMaxAmount (s.fundById id).balance = (s.fundById id).balance) :
    ∃ s₂ item₁, s.splitConvertIndividualFund optMaxAmount d (s.fundById id) =
        .ok (s₂, optMaxAmount.map (· - takenBalance optMaxAmount (s.fundById id).balance), item₁,
          takenBalance optMaxAmount (s.fundById id).balance) ∧
      ∃ lay', Converted intact s lay id d (takenBalance optMaxAmount (s.fundById id).balance)
        (s₂.setFund id item₁) lay' := by
  obtain ⟨s₁, item₁, hext, he⟩ := h.extractBalance hid hmax
  set x := takenBalance optMaxAmount (s.fundById id).balance with hx
  have hm : Linked intact (s₁.setFund id item₁) (s.afterTake lay id x) := he.linked
  obtain ⟨lay', hi⟩ := hm.increaseFundBalance (s.fundById id).userId d x
  -- after the extraction the item is gone, or stands in a list of another type
  have hid0 := h.ne_zero hid
  have hnot : ∀ a, a = 0 ∨ ((s₁.setFund id item₁).Live a ∧
      ((s₁.setFund id item₁).fundById a).fundType = d.fundType) → id ≠ a := by
    rintro a (rfl | ⟨ha, ht⟩) rfl
    · exact hid0 rfl
    · have hne := he.live_iff.mp ha
      rcases hd with hd | hd
      · have hp := congrArg Entry.fundType (he.entry_part (lt_of_le_of_ne he.le hne))
        exact hd (hp.symm.trans ht)
      · exact hne hd
  have hcomm : (s₁.increaseFundBalance (s.fundById id).userId d x).setFund id item₁ =
      (s₁.setFund id item₁).increaseFundBalance (s.fundById id).userId d x := by
    refine setFund_increaseFundBalance (hnot _ ?_) (hnot _ ?_) ?_
    · exact (hm.types.last_mem d.fundType).imp_right fun hl =>
        ⟨hm.live hl, hm.fundType_eq hl⟩
    · refine (hm.users.last_mem ((s.fundById id).userId, d.fundType)).imp_right fun hl => ?_
      obtain ⟨h1, h2⟩ := (hm.mem_byUser _ _).mp hl
      exact ⟨h1, congrArg Prod.snd h2⟩
    · have := h.le_max id hid
      rw [he.fundMaxId]
      omega
  refine ⟨s₁.increaseFundBalance (s.fundById id).userId d x, item₁, ?_, lay', ?_⟩
  · unfold splitConvertIndividualFund
    rw [hext]
    simp only [ok_bind, pure_eq_ok, he.userId]
  rw [hcomm]
  refine ⟨he.pos, he.le, hi.linked, ?_, fun t ht => ?_, fun u t ht => ?_, fun a hne ha ht => ?_,
    fun ht hlt => ?_, fun t => ?_, fun u t => ?_, fun k a hle ha => ?_,
    fun hco => hi.coherent (he.coherent h hco), fun hco ht => ?_,
    ((he.untouched h).mono fun _ => .inl).trans ((hi.untouched hm).mono fun _ => .inr)⟩
  · exact he.fundMaxId.symm.le.trans hi.fundMaxId
  · rw [hi.byType t ht, h.afterTake_byType]
  · rw [hi.byUser _ fun e => ht (congrArg Prod.snd e), h.afterTake_byUser]
  · have hsame := he.entry_setFund hne ha
    rw [← hsame]
    refine hi.entry a ?_ fun e => ht ?_
    · unfold Live
      rw [balance_eq_of_entry hsame]
      exact ha
    · rw [← fundType_eq_of_entry hsame]
      exact congrArg Prod.snd e
  · have hp := he.entry_part hlt
    rw [← hp]
    refine hi.entry id (he.live_iff.mpr hlt.ne) fun e => ht ?_
    rw [show (s.fundById id).fundType = _ from (congrArg Entry.fundType hp).symm]
    exact congrArg Prod.snd e
  · rw [hi.typeTotal, ← he.typeTotal]
    exact Nat.add_right_comm _ _ _
  · rw [hi.userTotal, ← he.userTotal]
    exact Nat.add_right_comm _ _ _
  · have hmem := hi.old k a (hle.trans he.fundMaxId.symm.le) ha
    rw [h.afterTake_byUser] at hmem
    split_ifs at hmem
    · exact List.mem_of_mem_erase hmem
    · exact hmem
  · rw [hi.queue (he.coherent h hco), he.queue_of_ne h ht.symm]

end FundStore

end Delegation
