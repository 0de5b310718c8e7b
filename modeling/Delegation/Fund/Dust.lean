import Delegation.Fund.Transformations

/-!
# Sweeping dust

The specification of `swap_dust`. `Swept` says of two stores that some whole items of one type, all
of them below the limit, have been converted for their users, and that nothing else has changed.

The traversal starts wherever its checkpoint says and follows the list of the item that stands
there, which need not be the list that is to be cleaned: `t` is the type of that item.
-/

namespace Delegation

open Outcome Loop DoublyLinked

namespace FundStore

variable {intact : FundType → Prop} {s s₁ s₂ : FundStore} {lay lay' : Layout} {t : FundType}
  {dustLimit id : ℕ} {d : FundDescription}

/-- Some items of type `t` below the limit have been converted to `d`, each one wholly. -/
structure SweptItems (t : FundType) (dustLimit : ℕ) (d : FundDescription) (s s' : FundStore)
    (ids : List ℕ) : Prop where
  dust : ∀ id ∈ ids, s.Live id ∧ (s.fundById id).fundType = t ∧
    (s.fundById id).balance < dustLimit ∧ ¬ s'.Live id
  kept : ∀ id, s.Live id → (s.fundById id).fundType ≠ d.fundType → id ∉ ids →
    s'.entry id = s.entry id
  own : ∀ id, s'.Live id → (s'.fundById id).fundType = t → s.Live id ∧ s'.entry id = s.entry id
  holding : ∀ p, s'.holding p + (ids.map fun id => (s.entry id).weight p).sum =
    s.holding p + (ids.map fun id =>
      if p (s.fundById id).userId d then (s.fundById id).balance else 0).sum

/-- What a sweep has done. -/
def Swept (t : FundType) (dustLimit : ℕ) (d : FundDescription) (s s' : FundStore) : Prop :=
  Evolves s s' ∧ ∃ ids, SweptItems t dustLimit d s s' ids

theorem Swept.refl (t : FundType) (dustLimit : ℕ) (d : FundDescription) (s : FundStore) :
    Swept t dustLimit d s s :=
  ⟨.refl s, [], by simp, fun _ _ _ _ => rfl, fun _ h _ => ⟨h, rfl⟩, fun _ => rfl⟩

/-- Nothing is swept from a store whose items stay. -/
theorem swept_of_fundById_eq (hfunds : s₁.fundById = s.fundById)
    (hmax : s₁.fundMaxId = s.fundMaxId) (t : FundType) (dustLimit : ℕ) (d : FundDescription) :
    Swept t dustLimit d s s₁ := by
  have hlive : ∀ id, s₁.Live id → s.Live id := fun id h => by rwa [Live, hfunds] at h
  have hentry : ∀ id, s₁.entry id = s.entry id := fun id => by rw [entry, entry, hfunds]
  refine ⟨⟨hmax.ge, fun id _ h => ⟨hlive id h, by rw [hfunds]⟩⟩, [], by simp,
    fun id _ _ _ => hentry id, fun id h _ => ⟨hlive id h, hentry id⟩, fun p => ?_⟩
  simp only [holding, hentry, hmax, List.map_nil]

/-- An item that is converted wholly is gone. -/
theorem Converted.not_live (hc : Converted intact s₁ lay id d (s₁.fundById id).balance s₂ lay')
    (hl : Linked intact s₁ lay) (hlive : s₁.Live id) (hd : d.fundType ≠ (s₁.fundById id).fundType) :
    ¬ s₂.Live id := by
  intro hlive₂
  have hkey := (hl.mem_byUser _ id).mp (hc.old _ id (hl.le_max id hlive)
    (hc.linked.mem_ownUser hlive₂))
  have htype : (s₂.fundById id).fundType = (s₁.fundById id).fundType :=
    (congrArg Prod.snd hkey.2).symm
  have hmem := (hc.linked.mem_byType _ id).mpr ⟨hlive₂, htype⟩
  rw [hc.byType _ hd.symm, if_pos rfl] at hmem
  exact (hl.types.nodup _).not_mem_erase hmem

/-- One more item. -/
theorem Swept.convert (h : Swept t dustLimit d s s₁) (hd : d.fundType ≠ t)
    {lay₀ : Layout} (hl₀ : Linked intact s lay₀) (hl : Linked intact s₁ lay)
    (hco : Coherent s₁ lay) (hlive : s₁.Live id)
    (ht : (s₁.fundById id).fundType = t) (hdust : (s₁.fundById id).balance < dustLimit)
    (hc : Converted intact s₁ lay id d (s₁.fundById id).balance s₂ lay') :
    Swept t dustLimit d s s₂ := by
  obtain ⟨hev, ids, hsw⟩ := h
  have hgone : ¬ s₂.Live id := hc.not_live hl hlive (ht ▸ hd)
  obtain ⟨hold, hentry⟩ := hsw.own id hlive ht
  have htype : (s.fundById id).fundType = t := (fundType_eq_of_entry hentry).symm.trans ht
  have hbalance : (s₁.fundById id).balance = (s.fundById id).balance := balance_eq_of_entry hentry
  have huser : (s₁.fundById id).userId = (s.fundById id).userId := congrArg Entry.userId hentry
  refine ⟨hev.trans (hl.evolves hc.linked hc.fundMaxId hc.old), id :: ids, ?_, ?_, ?_, ?_⟩
  · intro a ha
    rcases List.mem_cons.mp ha with rfl | ha
    · exact ⟨hold, htype, hbalance ▸ hdust, hgone⟩
    · obtain ⟨h₁, h₂, h₃, h₄⟩ := hsw.dust a ha
      refine ⟨h₁, h₂, h₃, fun hlive₂ => h₄ ?_⟩
      exact ((hl.mem_byUser _ a).mp (hc.old _ a ((hl₀.le_max a h₁).trans hev.fundMaxId)
        (hc.linked.mem_ownUser hlive₂))).1
  · intro a ha hta hnot
    rw [List.mem_cons, not_or] at hnot
    have hsame := hsw.kept a ha hta hnot.2
    rw [← hsame]
    refine hc.entry a hnot.1 ?_ ?_
    · unfold Live
      rw [balance_eq_of_entry hsame]
      exact ha
    · rw [fundType_eq_of_entry hsame]
      exact hta
  · intro a ha hta
    have hmem := (hc.linked.mem_byType t a).mpr ⟨ha, hta⟩
    rw [hc.byType t hd.symm, if_pos rfl] at hmem
    obtain ⟨hne, hmem⟩ := (hl.types.nodup t).mem_erase_iff.mp hmem
    have hsame := hc.entry a hne (hl.live hmem) (by rw [hl.fundType_eq hmem]; exact hd.symm)
    obtain ⟨h₁, h₂⟩ := hsw.own a (hl.live hmem) (hl.fundType_eq hmem)
    exact ⟨h₁, hsame.trans h₂⟩
  · intro p
    have h₁ := hsw.holding p
    have h₂ := hc.holding hl hco hlive (by rw [ht]; exact hd) p
    have h₃ : (if p (s₁.entry id).userId (s₁.entry id).fundDesc then (s₁.fundById id).balance
        else 0) = (s.entry id).weight p := by
      rw [hentry, hbalance]
      rfl
    rw [h₃, show (s₁.entry id).userId = (s.fundById id).userId from huser, hbalance] at h₂
    simp only [List.map_cons, List.sum_cons]
    omega

/-- A sweep changes descriptions, within each user. -/
theorem Swept.relabelled (h : Swept t dustLimit d s s₁) :
    Relabelled (fun _ d₀ d' => d₀.fundType = t ∧ d' = d) s s₁ := by
  obtain ⟨-, ids, hsw⟩ := h
  refine ⟨ids.map fun id => ⟨(s.fundById id).userId, (s.fundById id).fundDesc, d,
    (s.fundById id).balance⟩, fun c hc => ?_, fun p => ?_⟩
  · obtain ⟨id, hid, rfl⟩ := List.mem_map.mp hc
    exact ⟨(hsw.dust id hid).2.1, rfl⟩
  · rw [List.map_map, List.map_map]
    exact hsw.holding p

/-! ### The traversal -/

variable {σ : Type} {filterTransform : FundStore → σ → FundItem → Exec (Option FundDescription × σ)}
  {K : FundStore → σ → Prop}

/-- What the filter of a sweep guarantees: it converts to `d` only, and keeps `K`. -/
def DustFilterSpec (intact : FundType → Prop) (t : FundType) (d : FundDescription)
    (filterTransform : FundStore → σ → FundItem → Exec (Option FundDescription × σ))
    (K : FundStore → σ → Prop) : Prop :=
  ∀ s lay closure id r, Linked intact s lay → Coherent s lay → (Source.type t).Has s id →
    K s closure → filterTransform s closure (s.fundById id) = .ok r →
    match r.1 with
    | none => K s r.2
    | some d' => d' = d ∧ ∀ s' lay', Converted intact s lay id d (s.fundById id).balance s' lay' →
        K s' r.2

/-- **`swap_dust`** sweeps the list of the item that it starts from. -/
theorem Sound.swapDust (h : Sound intact s) (hi : intact t) (hd : d.fundType ≠ t)
    {sourceType : FundType} {currentId : ℕ}
    (hid : currentId = 0 ∧ sourceType = t ∨ (Source.type t).Has s currentId)
    (hT : DustFilterSpec intact t d filterTransform K) {closure : σ} (hK : K s closure)
    (dustLimit : ℕ) (interrupt : ℕ → Bool) (fuel : ℕ) :
    Spec (s.swapDust closure currentId dustLimit sourceType filterTransform interrupt fuel)
      (fun r => Sound intact r.1 ∧ (r.2.2 = 0 ∨ (Source.type t).Has r.1 r.2.2) ∧
        Swept t dustLimit d s r.1 ∧ K r.1 r.2.1) (fun _ => True) := by
  obtain ⟨lay, hl, hco⟩ := h
  have hnext : FundItem.typeListLink .backwards = (Source.type t).link .backwards := rfl
  refine Spec.bind (Traversal.run_spec (J := fun s₁ closure max => max = none ∧
    Swept t dustLimit d s s₁ ∧ K s₁ closure) hnext hi ?_ trivial fuel
    ⟨⟨lay, hl, hco⟩, ?_, rfl, .refl t dustLimit d s, hK⟩) fun c hc => ?_
  · intro s₁ lay₁ closure₁ max id hl₁ hco₁ hhas _ ⟨hmax, hsw, hK₁⟩
    refine Spec.of_forall_ok fun r hr => ?_
    subst hmax
    simp only [dustFilter] at hr
    split_ifs at hr with hdust
    · have hspec := hT s₁ lay₁ closure₁ id r hl₁ hco₁ hhas hK₁ hr
      obtain ⟨transformed, closure₂⟩ := r
      cases transformed with
      | none => exact ⟨rfl, hsw, hspec⟩
      | some d' =>
        obtain ⟨rfl, hspec⟩ := hspec
        refine ⟨hd, ?_⟩
        simp only [Bool.false_eq_true, if_false]
        exact fun s₂ lay₂ hc => ⟨rfl, hsw.convert hd hl hl₁ hco₁ hhas.1 hhas.2.1 hdust hc,
          hspec s₂ lay₂ hc⟩
    · cases hr
      exact ⟨rfl, hsw, hK₁⟩
  · exact hl.checkpoint_live hid .backwards
  · obtain ⟨hs, hid', -, hsw, hK'⟩ := hc
    exact ⟨hs, hid', hsw, hK'⟩

/-- The filter that accepts everything. -/
theorem dustFilterSpec_some (intact : FundType → Prop) (t : FundType) (d : FundDescription) :
    DustFilterSpec intact t d (pureFilter fun _ => some d) fun _ _ => True := by
  intro s lay closure id r _ _ _ _ hr
  cases hr
  exact ⟨rfl, fun _ _ _ => trivial⟩

/-! ### A checkpoint whose item is gone -/

/-- The list of all `WithdrawOnly` items without its ends. -/
@[simps!]
def clearWithdrawOnlyEnds (s : FundStore) : FundStore :=
  s.setTypeList .withdrawOnly
    { totalBalance := (s.fundListByType .withdrawOnly).totalBalance, first := 0, last := 0 }

theorem setFund_cleared (hcell : s.fundById id = FundItem.default) :
    s.setFund id FundItem.default = s := by
  simp only [setFund, FundItem.stored_default]
  rw [← hcell, Function.update_eq_self]

/-- A sweep ends after a visit that finds no next item. -/
theorem swapDust_of_visit (hid : id ≠ 0) {closure closure' : σ} {sourceType : FundType}
    {interrupt : ℕ → Bool} {s' : FundStore}
    (hvisit : Traversal.visit
        { nextId := FundItem.typeListLink .backwards
          filterTransform := dustFilter dustLimit filterTransform, interrupt, dryRun := false }
        { store := s, closure, optMaxAmount := none, id, visitedUsers := [],
          totalTransformed := 0 } =
      .ok { store := s', closure := closure', optMaxAmount := none, id := 0,
            visitedUsers := [(s.fundById id).userId], totalTransformed := 0 }) (fuel : ℕ) :
    s.swapDust closure id dustLimit sourceType filterTransform interrupt fuel =
      if interrupt 0 then .ok (s, closure, id)
      else if fuel = 0 then .error .outOfGas else .ok (s', closure', 0) := by
  unfold swapDust splitConvertMaxByTypeWithCheckpoint
  simp only [if_neg hid]
  rw [Traversal.run_of_visit hvisit (by simp [Traversal.guard])]
  have hpos := Nat.pos_of_ne_zero hid
  cases hint : interrupt 0 with
  | true => simp [Traversal.guard, hint]
  | false =>
    simp only [Traversal.guard, hint, hpos, decide_true, Bool.not_false, Bool.and_self, ne_eq,
      reduceCtorEq, not_false_eq_true, if_true, Bool.false_eq_true, if_false]
    split_ifs <;> rfl

/-- A cleared cell is rejected: the traversal ends there. -/
theorem swapDust_of_reject (hid : id ≠ 0) (hcell : s.fundById id = FundItem.default)
    {closure : σ} {sourceType : FundType} {interrupt : ℕ → Bool} {fuel : ℕ}
    (hT : dustFilter dustLimit filterTransform s closure FundItem.default = .ok (none, closure)) :
    s.swapDust closure id dustLimit sourceType filterTransform interrupt fuel =
      if interrupt 0 then .ok (s, closure, id)
      else if fuel = 0 then .error .outOfGas else .ok (s, closure, 0) := by
  refine swapDust_of_visit hid ?_ fuel
  simp only [Traversal.visit, hcell, hT, ok_bind, pure_eq_ok, setFund_cleared hcell]
  rfl

/-- A cleared cell reads as an item of user 0 that is alone in its lists: deleting it leaves those
lists without their ends. -/
def deleteDefault (s : FundStore) : FundStore :=
  s.clearWithdrawOnlyEnds.setUserList (0, .withdrawOnly)
    { totalBalance := (s.fundListByUser (0, .withdrawOnly)).totalBalance, first := 0, last := 0 }

/-- User 0 has no list to lose. -/
theorem deleteDefault_eq (hzero : s.fundListByUser (0, .withdrawOnly) = FundsListInfo.default) :
    s.deleteDefault = s.clearWithdrawOnlyEnds := by
  have hsame : s.clearWithdrawOnlyEnds.fundListByUser (0, .withdrawOnly) =
      FundsListInfo.default := hzero
  simp only [deleteDefault, hzero, setUserList]
  exact congrArg (fun f => { s.clearWithdrawOnlyEnds with fundListByUser := f })
    ((congrArg _ hsame.symm).trans (Function.update_eq_self _ _))

/-- Deleting a cleared cell takes nothing out. -/
theorem splitConvert_default (s : FundStore) :
    s.splitConvertIndividualFund none .withdrawOnly FundItem.default =
      .ok (s.deleteDefault, none, FundItem.default, 0) := by
  have htype : s.deleteFromType FundItem.default =
      .ok (s.clearWithdrawOnlyEnds, FundItem.default) := by
    simp [deleteFromType, deleteFundFromTypeList, bigSub, clearWithdrawOnlyEnds, FundItem.default,
      FundItem.fundType, FundDescription.fundType]
  have huser : s.clearWithdrawOnlyEnds.deleteFromUser FundItem.default =
      .ok (s.deleteDefault, FundItem.default) := by
    simp [deleteFromUser, deleteFundFromUserList, bigSub, deleteDefault, FundItem.default,
      FundItem.fundType, FundDescription.fundType]
  simp only [splitConvertIndividualFund, extractBalance, deleteFund, htype, huser, ok_bind,
    pure_eq_ok]
  rfl

/-- A cleared cell is converted by a filter that accepts everything: nothing moves, and the list of
all `WithdrawOnly` items loses its ends. -/
theorem swapDust_of_cleared (hid : id ≠ 0) (hcell : s.fundById id = FundItem.default)
    (hlimit : 0 < dustLimit) {sourceType : FundType} {interrupt : ℕ → Bool} {fuel : ℕ} :
    s.swapDust () id dustLimit sourceType (pureFilter fun _ => some .withdrawOnly) interrupt fuel =
      if interrupt 0 then .ok (s, (), id)
      else if fuel = 0 then .error .outOfGas else .ok (s.deleteDefault, (), 0) := by
  have hfilter : dustFilter dustLimit (pureFilter fun _ => some .withdrawOnly) s ()
      FundItem.default = .ok (some .withdrawOnly, ()) := if_pos hlimit
  have hcell' : s.deleteDefault.fundById id = FundItem.default := hcell
  refine swapDust_of_visit hid ?_ fuel
  simp only [Traversal.visit, hcell, hfilter, ok_bind, Bool.false_eq_true, if_false,
    splitConvert_default, pure_eq_ok, setFund_cleared hcell']
  rfl

/-- Without its ends the list of all `WithdrawOnly` items is no longer intact, and nothing else is
lost. -/
theorem Linked.clearWithdrawOnlyEnds (h : Linked intact s lay)
    (hi : intact .withdrawOnly → s.typeTotal .withdrawOnly = 0) :
    Linked intact s.clearWithdrawOnlyEnds lay := by
  have htotal : ∀ t, s.clearWithdrawOnlyEnds.typeTotal t = s.typeTotal t := fun t => by
    by_cases ht : t = .withdrawOnly
    · subst ht
      simp [typeTotal]
    · simp [typeTotal, ht]
  exact {
    types := by
      have hfamily : s.clearWithdrawOnlyEnds.typeFamily = s.typeFamily.reset .withdrawOnly :=
        typeFamily_setTypeList s .withdrawOnly _
      rw [hfamily]
      exact h.types.reset_of_nil fun hw => h.byType_eq_nil_iff.mpr (hi hw)
    users := h.users
    mem_byType := h.mem_byType
    mem_byUser := h.mem_byUser
    le_max := h.le_max
    cleared := h.cleared
    typeTotal_eq := fun t => (htotal t).trans (h.typeTotal_eq t)
    userTotal_eq := h.userTotal_eq }

end FundStore

end Delegation
