import Delegation.Fund.Dust
import Delegation.Fund.History
import Delegation.Fund.Totals

/-!
# Traversals from a stored id

A traversal with a checkpoint starts from an id that was stored by an earlier call. When the item
that stands there is a live one, the traversal keeps all lists intact, in whatever order the lists
by user are (`Intact.swapDust`), and it changes nothing and comes to its end exactly when there is
no dust from there on and the gas lasts (`swapDust_harmless`). When the cell is cleared, deleting it
breaks the list of all `WithdrawOnly` items, unless that is empty (`intact_deleteDefault_iff`).
-/

namespace Delegation

open Outcome Loop DoublyLinked

namespace FundStore

variable {intact : FundType → Prop} {s s' : FundStore} {lay : Layout} {t : FundType} {σ : Type}
  {id : ℕ}

/-! ### Intact lists -/

/-- Every live item stands once in the list of its type and once in the list of its user and type,
the ends and the links are those of the lists, and the cached totals are the sums. -/
def Intact (s : FundStore) : Prop := ∃ lay, Linked (fun _ => True) s lay

/-- Visits keep the lists and do not revive items. -/
theorem Linked.visits {T : Traversal σ} (src : Source) (direction : SwapDirection) {overrun : Panic}
    (hnext : T.nextId = src.link direction) (hi : intact src.fundType)
    (hfilter : ChangesType src.fundType T.filterTransform) (budget k : ℕ) {c : Cursor σ}
    (hl : Linked intact c.store lay) (hid : c.id = 0 ∨ src.Has c.store c.id) :
    Spec (whileLoop T.guard T.visit overrun budget k c)
      (fun c' => (∃ lay', Linked intact c'.store lay') ∧ Evolves c.store c'.store)
      (fun _ => True) := by
  refine (whileLoop_spec (J := fun _ c' => (∃ lay', Linked intact c'.store lay') ∧
    (c'.id = 0 ∨ src.Has c'.store c'.id) ∧ Evolves c.store c'.store) trivial ?_ budget k c
    ⟨⟨lay, hl⟩, hid, .refl _⟩).imp fun c' ⟨_, ⟨hl', _, hev⟩, _⟩ => ⟨hl', hev⟩
  intro k c₁ hc₁ hg
  obtain ⟨⟨lay₁, hl₁⟩, hid₁, hev⟩ := hc₁
  have hg' := hg
  simp only [Traversal.guard, Bool.and_eq_true, decide_eq_true_eq] at hg'
  have hhas : src.Has c₁.store c₁.id := hid₁.resolve_left (by omega)
  refine (Traversal.visit_linked hnext hi hl₁ hid₁ hg (Spec.of_forall_ok fun r hr => hr)
    fun d closure hr => hfilter _ _ _ d closure hhas.2.1 hr).imp ?_
  rintro c₂ ⟨hid₂, ⟨transformed, closure⟩, -, -, hcase⟩
  cases transformed with
  | none =>
    rw [hcase.1] at hid₂ ⊢
    exact ⟨⟨lay₁, hl₁⟩, hid₂, hev⟩
  | some d =>
    obtain ⟨-, hcase⟩ := hcase
    split_ifs at hcase
    · rw [hcase] at hid₂ ⊢
      exact ⟨⟨lay₁, hl₁⟩, hid₂, hev⟩
    · obtain ⟨lay₂, hcv⟩ := hcase
      exact ⟨⟨lay₂, hcv.linked⟩, hid₂, hev.trans (hl₁.evolves hcv.linked hcv.fundMaxId hcv.old)⟩

theorem Intact.splitConvertMaxByType (h : s.Intact) {closure : σ} {optMaxAmount : Option ℕ}
    {direction : SwapDirection}
    {filterTransform : FundStore → σ → FundItem → Exec (Option FundDescription × σ)}
    {interrupt : ℕ → Bool} {dryRun : Bool} (hfilter : ChangesType t filterTransform) :
    Spec (s.splitConvertMaxByType closure optMaxAmount t direction filterTransform interrupt dryRun)
      (fun r => r.1.Intact) (fun _ => True) := by
  obtain ⟨lay, hl⟩ := h
  refine Spec.bind (P := fun c => c.store.Intact) ?_ fun _ hc => hc
  refine (Linked.visits (.type t) direction rfl trivial ?_ _ 0 hl ?_).imp fun _ hc => hc.1
  · exact hfilter
  · exact hl.start_live (.type t) direction

theorem changesType_dustFilter {dustLimit : ℕ}
    {filterTransform : FundStore → σ → FundItem → Exec (Option FundDescription × σ)}
    (hfilter : ChangesType t filterTransform) :
    ChangesType t (dustFilter dustLimit filterTransform) := by
  intro s closure item d closure' ht hr
  simp only [dustFilter] at hr
  split_ifs at hr
  · exact hfilter s closure item d closure' ht hr
  · cases hr

/-- A sweep from the end of a list, or from a live item, keeps the lists intact. -/
theorem Intact.swapDust (h : s.Intact) {sourceType : FundType} {closure : σ} {currentId : ℕ}
    {filterTransform : FundStore → σ → FundItem → Exec (Option FundDescription × σ)}
    (hfilter : ChangesType t filterTransform)
    (hid : currentId = 0 ∧ sourceType = t ∨ (Source.type t).Has s currentId) (dustLimit : ℕ)
    (interrupt : ℕ → Bool) (fuel : ℕ) :
    Spec (s.swapDust closure currentId dustLimit sourceType filterTransform interrupt fuel)
      (fun r => r.1.Intact) (fun _ => True) := by
  obtain ⟨lay, hl⟩ := h
  refine Spec.bind (P := fun c => c.store.Intact) ?_ fun _ hc => hc
  refine (Linked.visits (.type t) .backwards rfl trivial ?_ _ 0 hl ?_).imp fun _ hc => hc.1
  · exact changesType_dustFilter hfilter
  · exact hl.checkpoint_live hid .backwards

/-! ### A cleared cell -/

/-- A list that is not empty has a first item. -/
theorem Intact.first_ne_zero (h : s.Intact) (ht : s.typeTotal t ≠ 0) :
    (s.fundListByType t).first ≠ 0 := by
  obtain ⟨lay, hl⟩ := h
  have hne : lay.byType t ≠ [] := mt hl.byType_eq_nil_iff.mp ht
  have hfirst : (s.fundListByType t).first = (lay.byType t).headD 0 :=
    (hl.types.rep t trivial).first
  have hnull := hl.types.null t
  rw [hfirst]
  cases hids : lay.byType t with
  | nil => exact absurd hids hne
  | cons id ids =>
    rw [hids] at hnull
    rintro rfl
    exact hnull (by simp)

/-- No funds of a type, so none of any user. -/
theorem Linked.userList_eq_default (h : Linked intact s lay) (ht : s.typeTotal t = 0) (u : ℕ) :
    s.fundListByUser (u, t) = FundsListInfo.default := by
  have hnil : lay.byUser (u, t) = [] := by
    refine List.eq_nil_iff_forall_not_mem.mpr fun id hid => ?_
    obtain ⟨hlive, hkey⟩ := (h.mem_byUser _ id).mp hid
    have hmem := (h.mem_byType t id).mpr ⟨hlive, congrArg Prod.snd hkey⟩
    rw [h.byType_eq_nil_iff.mpr ht] at hmem
    exact List.not_mem_nil hmem
  exact FundsListInfo.eq_default_of_isDefault (h.userList_isDefault_iff.mpr hnil)

/-- The list of all `WithdrawOnly` items is intact when it holds one item, at both of its ends. -/
theorem Linked.intact_of_single (h : Linked intact s lay) (hi : ∀ t, t ≠ .withdrawOnly → intact t)
    (id : ℕ) (hlive : s.Live id) (hentry : (s.fundById id).fundType = .withdrawOnly)
    (htotal : s.typeTotal .withdrawOnly = (s.fundById id).balance)
    (hends : s.typeFamily.list .withdrawOnly = ⟨s.typeFamily.next, s.typeFamily.prev, id, id⟩)
    (hnext : (s.fundById id).typeListNext = 0) (hprev : (s.fundById id).typeListPrev = 0) :
    s.Intact := by
  have hmem := (h.mem_byType .withdrawOnly id).mpr ⟨hlive, hentry⟩
  have hperm := List.perm_cons_erase hmem
  -- the item makes up the total, so there is no other
  have hrest : (lay.byType .withdrawOnly).erase id = [] := by
    refine eq_nil_of_sumBalances_eq_zero (fun a ha => h.live (List.mem_of_mem_erase ha)) ?_
    have hsum : s.sumBalances (lay.byType .withdrawOnly) =
        (s.fundById id).balance + s.sumBalances ((lay.byType .withdrawOnly).erase id) :=
      (hperm.map fun a => (s.fundById a).balance).sum_eq
    have := h.typeTotal_eq .withdrawOnly
    omega
  rw [hrest, List.perm_singleton] at hperm
  refine ⟨lay, { h with types := { h.types with rep := fun t _ => ?_ } }⟩
  by_cases ht : t = .withdrawOnly
  · subst ht
    rw [hends, hperm]
    exact ⟨rfl, rfl, hprev, hnext, trivial⟩
  · exact h.types.rep t (hi t ht)

/-- **Deleting a cleared cell** leaves the lists intact only if there are no `WithdrawOnly` items.
-/
theorem intact_deleteDefault_iff (h : s.Intact) :
    s.deleteDefault.Intact ↔ s.typeTotal .withdrawOnly = 0 := by
  constructor
  · intro h'
    by_contra hne
    refine h'.first_ne_zero (t := .withdrawOnly) ?_ ?_
    · simpa [typeTotal, deleteDefault] using hne
    · simp [deleteDefault]
  · intro h0
    obtain ⟨lay, hl⟩ := h
    rw [deleteDefault_eq (hl.userList_eq_default h0 0)]
    exact ⟨lay, hl.clearWithdrawOnlyEnds fun _ => h0⟩

/-! ### A live item -/

/-- The ids that a traversal backwards meets from `id` on. -/
def idsBack (s : FundStore) (id : ℕ) : List ℕ :=
  idsFrom (fun a => (s.fundById a).typeListPrev) s.fundMaxId id

/-- From `id` on there is no dust, and the gas lasts to the end of the list. -/
structure Harmless (s : FundStore) (dustLimit id : ℕ) (interrupt : ℕ → Bool) : Prop where
  balance : ∀ a ∈ s.idsBack id, dustLimit ≤ (s.fundById a).balance
  gas : ∀ k < (s.idsBack id).length, interrupt k = false

theorem idsFrom_of_links {next : ℕ → ℕ} {w : List ℕ} (h0 : 0 ∉ w)
    (hlink : ∀ K a R, w = K ++ a :: R → next a = R.headD 0) (m : List ℕ) :
    ∀ (K : List ℕ) (n : ℕ), w = K ++ m → m.length ≤ n → idsFrom next n (m.headD 0) = m := by
  induction m with
  | nil => intro _ n _ _; cases n <;> simp [idsFrom]
  | cons a R ih =>
    intro K n hw hn
    have ha : a ≠ 0 := by
      rintro rfl
      exact h0 (by rw [hw]; simp)
    cases n with
    | zero => simp at hn
    | succ n =>
      rw [List.headD_cons, idsFrom, if_neg ha, hlink K a R hw,
        ih (K ++ [a]) n (by simp [hw]) (by simpa using hn)]

/-- The links of a type lead backwards through its list. -/
theorem Linked.typeListPrev_eq (h : Linked intact s lay) (hi : intact t) {K R : List ℕ} {a : ℕ}
    (hw : (lay.byType t).reverse = K ++ a :: R) : (s.fundById a).typeListPrev = R.headD 0 := by
  have hwalk : SwapDirection.backwards.walk (lay.byType t) = K ++ a :: R := hw
  exact rep_link_walk (h.types.rep t hi) hwalk

theorem Linked.idsBack_eq (h : Linked intact s lay) (hi : intact t) {K R : List ℕ} {a : ℕ}
    (hw : (lay.byType t).reverse = K ++ a :: R) : s.idsBack a = a :: R := by
  have h0 : 0 ∉ (lay.byType t).reverse := by simpa using h.types.null t
  have hsub : (a :: R).length ≤ s.fundMaxId := by
    have hle := h.length_byType_le t
    have hlen := congrArg List.length hw
    simp only [List.length_reverse, List.length_append] at hlen
    omega
  exact idsFrom_of_links h0 (fun K a R => h.typeListPrev_eq hi) (a :: R) K _ hw hsub

/-- The traversal of `swap_dust`. -/
def dustTraversal (dustLimit : ℕ)
    (filterTransform : FundStore → σ → FundItem → Exec (Option FundDescription × σ))
    (interrupt : ℕ → Bool) : Traversal σ where
  nextId := FundItem.typeListLink .backwards
  filterTransform := dustFilter dustLimit filterTransform
  interrupt := interrupt
  dryRun := false

section Harmless

variable {dustLimit : ℕ} {interrupt : ℕ → Bool} {overrun : Panic}
  {filterTransform : FundStore → σ → FundItem → Exec (Option FundDescription × σ)}

/-- A visit to an item that is not dust goes on to the item before it. -/
theorem dustTraversal_visit_of_le {c : Cursor σ} (hlive : c.store.Live c.id)
    (hle : dustLimit ≤ (c.store.fundById c.id).balance) :
    (dustTraversal dustLimit filterTransform interrupt).visit c =
      .ok { c with
        id := (c.store.fundById c.id).typeListPrev
        visitedUsers := c.visitedUsers ++ [(c.store.fundById c.id).userId] } := by
  have hskip : dustFilter dustLimit filterTransform c.store c.closure (c.store.fundById c.id) =
      .ok (none, c.closure) := if_neg (not_lt.mpr hle)
  simp only [Traversal.visit, dustTraversal, hskip, ok_bind, setFund_self hlive, pure_eq_ok,
    FundItem.typeListLink]

/-- A visit to dust converts it, and the visits that follow do not bring it back. -/
theorem Linked.not_live_of_dust {budget k : ℕ} {c c₁ c' : Cursor σ}
    (h : Linked intact c.store lay) (hi : intact t) (hfilter : ChangesType t filterTransform)
    (haccept : ∀ a closure r, (Source.type t).Has c.store a →
      filterTransform c.store closure (c.store.fundById a) = .ok r → r.1 ≠ none)
    (hhas : (Source.type t).Has c.store c.id) (hlt : (c.store.fundById c.id).balance < dustLimit)
    (hmax : c.optMaxAmount = none)
    (hg : (dustTraversal dustLimit filterTransform interrupt).guard k c = true)
    (hvisit : (dustTraversal dustLimit filterTransform interrupt).visit c = .ok c₁)
    (hrun : whileLoop (dustTraversal dustLimit filterTransform interrupt).guard
      (dustTraversal dustLimit filterTransform interrupt).visit overrun budget (k + 1) c₁ =
        .ok c') : ¬ c'.store.Live c.id := by
  have hchanges : ChangesType t (dustFilter dustLimit filterTransform) :=
    changesType_dustFilter hfilter
  have hsrc : (dustTraversal dustLimit filterTransform interrupt).nextId =
      (Source.type t).link .backwards := rfl
  obtain ⟨hid₁, ⟨transformed, closure⟩, hr, -, hcase⟩ :=
    (Traversal.visit_linked hsrc hi h (.inr hhas) hg (Spec.of_forall_ok fun r hr => hr)
      fun d closure hr => hchanges _ _ _ d closure hhas.2.1 hr).of_ok hvisit
  have hr' : filterTransform c.store c.closure (c.store.fundById c.id) =
      .ok (transformed, closure) :=
    (if_pos hlt).symm.trans hr
  cases transformed with
  | none => exact absurd rfl (haccept _ _ _ hhas hr')
  | some d =>
    have hd : d.fundType ≠ t := hfilter _ _ _ d closure hhas.2.1 hr'
    simp only [hmax, dustTraversal, Bool.false_eq_true, if_false] at hcase
    obtain ⟨-, lay₁, hcv⟩ := hcase
    have hgone : ¬ c₁.store.Live c.id := hcv.not_live h hhas.1 (by rw [hhas.2.1]; exact hd)
    have hrest := (Linked.visits (.type t) .backwards hsrc hi hchanges budget (k + 1) hcv.linked
      hid₁).of_ok hrun
    have hle : c.id ≤ c₁.store.fundMaxId := (h.le_max _ hhas.1).trans hcv.fundMaxId
    exact fun hlive => hgone (hrest.2.item _ hle hlive).1

/-- **A sweep from a live item** changes nothing and comes to the end of the list exactly when there
is no dust from there on and the gas lasts. -/
theorem Linked.visits_harmless (h : Linked intact s lay) (hi : intact t)
    (hfilter : ChangesType t filterTransform)
    (haccept : ∀ a closure r, (Source.type t).Has s a →
      filterTransform s closure (s.fundById a) = .ok r → r.1 ≠ none) (m : List ℕ) :
    ∀ (K : List ℕ) (budget k : ℕ) (c c' : Cursor σ), (lay.byType t).reverse = K ++ m →
      c.store = s → c.id = m.headD 0 → c.optMaxAmount = none →
      whileLoop (dustTraversal dustLimit filterTransform interrupt).guard
        (dustTraversal dustLimit filterTransform interrupt).visit overrun budget k c = .ok c' →
      (c'.store.fundById = s.fundById ∧ c'.id = 0 →
        (∀ a ∈ m, dustLimit ≤ (s.fundById a).balance) ∧
          ∀ j < m.length, interrupt (k + j) = false) ∧
      ((∀ a ∈ m, dustLimit ≤ (s.fundById a).balance) →
        (∀ j < m.length, interrupt (k + j) = false) → c'.store = s ∧ c'.id = 0) := by
  induction m with
  | nil =>
    intro K budget k c c' _ hstore hid _ hrun
    rw [whileLoop_of_not_guard (by simp [Traversal.guard, hid])] at hrun
    cases hrun
    exact ⟨fun _ => ⟨by simp, by simp⟩, fun _ _ => ⟨hstore, hid⟩⟩
  | cons a R ih =>
    intro K budget k c c' hw hstore hid hmax hrun
    have hmem : a ∈ lay.byType t := by
      rw [← List.mem_reverse, hw]
      simp
    have hlive := h.live hmem
    have hhas : (Source.type t).Has s a := ⟨hlive, h.fundType_eq hmem, rfl⟩
    have hida : c.id = a := hid
    have ha0 : a ≠ 0 := h.ne_zero hlive
    subst hstore hida
    cases hint : interrupt k with
    | true =>
      -- out of gas before the item
      rw [whileLoop_of_not_guard (by simp [Traversal.guard, dustTraversal, hint])] at hrun
      cases hrun
      refine ⟨fun hend => absurd hend.2 ha0, fun _ hgas => ?_⟩
      have := hgas 0 (by simp)
      rw [Nat.add_zero, hint] at this
      cases this
    | false =>
      have hg : (dustTraversal dustLimit filterTransform interrupt).guard k c = true := by
        simp [Traversal.guard, dustTraversal, hint, hmax]
        omega
      cases budget with
      | zero =>
        rw [whileLoop_zero_of_guard hg] at hrun
        cases hrun
      | succ budget =>
        rw [whileLoop_succ_of_guard hg] at hrun
        obtain ⟨c₁, hvisit, hrun⟩ := bind_eq_ok.mp hrun
        by_cases hle : dustLimit ≤ (c.store.fundById c.id).balance
        · rw [dustTraversal_visit_of_le hlive hle] at hvisit
          cases hvisit
          have hih := ih (K ++ [c.id]) budget (k + 1)
            { c with
              id := (c.store.fundById c.id).typeListPrev
              visitedUsers := c.visitedUsers ++ [(c.store.fundById c.id).userId] }
            c' (by simp [hw]) rfl (h.typeListPrev_eq hi hw) hmax hrun
          have hgas : (∀ j < R.length, interrupt (k + 1 + j) = false) ↔
              ∀ j < (c.id :: R).length, interrupt (k + j) = false := by
            constructor
            · rintro hR (_ | j) hj
              · exact hint
              · rw [← Nat.add_assoc, Nat.add_right_comm]
                exact hR j (by simpa using hj)
            · intro hR j hj
              have := hR (j + 1) (by simpa using hj)
              rwa [← Nat.add_assoc, Nat.add_right_comm] at this
          rw [List.forall_mem_cons, ← hgas]
          exact ⟨fun hend => ⟨⟨hle, (hih.1 hend).1⟩, (hih.1 hend).2⟩,
            fun hbal hR => hih.2 hbal.2 hR⟩
        · -- the item is converted, and does not come back
          have hgone :=
            h.not_live_of_dust hi hfilter haccept hhas (not_le.mp hle) hmax hg hvisit hrun
          refine ⟨fun hend => absurd ?_ hgone, fun hbal => absurd (hbal _ (by simp)) hle⟩
          simp only [Live, hend.1]
          exact hlive

theorem Linked.swapDust_harmless (h : Linked intact s lay) (hi : intact t)
    (hfilter : ChangesType t filterTransform)
    (haccept : ∀ a closure r, (Source.type t).Has s a →
      filterTransform s closure (s.fundById a) = .ok r → r.1 ≠ none)
    (hhas : (Source.type t).Has s id) {closure closure' : σ} {sourceType : FundType}
    {fuel nextId : ℕ}
    (hcall : s.swapDust closure id dustLimit sourceType filterTransform interrupt fuel =
      .ok (s', closure', nextId)) :
    (s'.fundById = s.fundById ∧ nextId = 0 → s.Harmless dustLimit id interrupt) ∧
      (s.Harmless dustLimit id interrupt → s' = s ∧ nextId = 0) := by
  obtain ⟨c', hrun, hc'⟩ := bind_eq_ok.mp hcall
  simp only [pure_eq_ok, Except.ok.injEq, Prod.mk.injEq] at hc'
  obtain ⟨rfl, -, rfl⟩ := hc'
  have hmem : id ∈ (lay.byType t).reverse := by
    rw [List.mem_reverse]
    exact (h.mem_byType t id).mpr ⟨hhas.1, hhas.2.1⟩
  obtain ⟨K, R, hw⟩ := List.append_of_mem hmem
  have hids := h.idsBack_eq hi hw
  have hboth := h.visits_harmless hi hfilter haccept (id :: R) K fuel 0 _ c' hw rfl
    (if_neg (h.ne_zero hhas.1)) rfl hrun
  simp only [Nat.zero_add] at hboth
  refine ⟨fun hend => ?_, fun hh => ?_⟩
  · obtain ⟨hbal, hgas⟩ := hboth.1 hend
    exact ⟨by rw [hids]; exact hbal, by rw [hids]; exact hgas⟩
  · have hbal := hh.balance
    have hgas := hh.gas
    rw [hids] at hbal hgas
    exact hboth.2 hbal hgas

end Harmless

/-! ### A sweep of its own list -/

section OwnList

variable {own : FundType} {d : FundDescription} {dustLimit nextId : ℕ} {interrupt : ℕ → Bool}

/-- What a sweep of the list `own` from the stored id `id` should do: some of the dust of that list
is converted to `d` for its users and every other total stays; and if `id` is not that of an item of
the list, nothing is converted and the next sweep begins at the end of the list. -/
structure CleansOwnList (own : FundType) (d : FundDescription) (dustLimit : ℕ) (s s' : FundStore)
    (id nextId : ℕ) : Prop where
  swept : Swept own dustLimit d s s'
  typeTotal : ∀ t, t ≠ own → t ≠ d.fundType → s'.typeTotal t = s.typeTotal t
  userTotal : ∀ u t, t ≠ own → t ≠ d.fundType → s'.userTotal u t = s.userTotal u t
  reset : id ≠ 0 → ¬ (Source.type own).Has s id → s'.fundById = s.fundById ∧ nextId = 0

/-- The stored ids from which a sweep of the list `own` does what it should. -/
inductive Resumable (own : FundType) (dustLimit : ℕ) (s : FundStore) (id : ℕ)
    (interrupt : ℕ → Bool) : Prop
  | start (h0 : id = 0)
  | item (hhas : (Source.type own).Has s id)
  | cleared (hlive : ¬ s.Live id) (hgas : interrupt 0 = false)
  | other (hlive : s.Live id) (hne : (s.fundById id).fundType ≠ own)
      (hharmless : s.Harmless dustLimit id interrupt)

/-- A sweep of the list `own` leaves the totals of the types that it has nothing to do with. -/
theorem Swept.totals (h : Swept own dustLimit d s s') (hs : Sound intact s)
    (hs' : Sound intact s') (ht : t ≠ own) (ht' : t ≠ d.fundType) :
    s'.typeTotal t = s.typeTotal t ∧ ∀ u, s'.userTotal u t = s.userTotal u t := by
  have hneither : ∀ d₀ d' : FundDescription, d₀.fundType = own ∧ d' = d →
      ¬ d'.fundType = t ∧ ¬ d₀.fundType = t := fun d₀ d' h =>
    ⟨by rw [h.2]; exact ht'.symm, by rw [h.1]; exact ht.symm⟩
  refine ⟨?_, fun u => ?_⟩
  · rw [hs.typeTotal_eq_holding, hs'.typeTotal_eq_holding]
    exact h.relabelled.holding_eq fun _ d₀ d' hR => by simp [hneither d₀ d' hR]
  · rw [hs.userTotal_eq_holding, hs'.userTotal_eq_holding]
    exact h.relabelled.holding_eq fun _ d₀ d' hR => by simp [hneither d₀ d' hR]

theorem cleansOwnList_refl (own : FundType) (d : FundDescription) (dustLimit : ℕ) (s : FundStore)
    (id : ℕ) : CleansOwnList own d dustLimit s s id 0 :=
  ⟨.refl _ _ _ _, fun _ _ _ => rfl, fun _ _ _ _ => rfl, fun _ _ => ⟨rfl, rfl⟩⟩

/-- From a cleared cell nothing is converted, and the sweep ends there if there is the gas to look
at it. -/
theorem cleansOwnList_of_cleared {s₂ : FundStore} {closure closure' : σ} {fuel : ℕ} (hid : id ≠ 0)
    (hfunds : s₂.fundById = s.fundById) (hmax : s₂.fundMaxId = s.fundMaxId)
    (htype : ∀ t, s₂.typeTotal t = s.typeTotal t)
    (huser : ∀ u t, s₂.userTotal u t = s.userTotal u t)
    (hcall : (if interrupt 0 then .ok (s, closure, id) else if fuel = 0 then .error .outOfGas
      else .ok (s₂, closure, 0) : Exec (FundStore × σ × ℕ)) = .ok (s', closure', nextId)) :
    CleansOwnList own d dustLimit s s' id 0 ∧ (nextId = 0 ↔ interrupt 0 = false) := by
  split_ifs at hcall with hint hfuel
  · cases hcall
    exact ⟨cleansOwnList_refl own d dustLimit s _, by simp [hid, hint]⟩
  · cases hcall
    exact ⟨⟨swept_of_fundById_eq hfunds hmax _ _ _, fun t _ _ => htype t, fun u t _ _ => huser u t,
      fun _ _ => ⟨hfunds, rfl⟩⟩, by simp [hint]⟩

theorem deleteDefault_typeTotal (s : FundStore) (t : FundType) :
    s.deleteDefault.typeTotal t = s.typeTotal t := by
  by_cases ht : t = .withdrawOnly
  · subst ht
    simp [typeTotal, deleteDefault]
  · simp [typeTotal, deleteDefault, ht]

theorem deleteDefault_userTotal (s : FundStore) (u : ℕ) (t : FundType) :
    s.deleteDefault.userTotal u t = s.userTotal u t := by
  by_cases hk : (u, t) = (0, .withdrawOnly)
  · simp only [Prod.mk.injEq] at hk
    obtain ⟨rfl, rfl⟩ := hk
    simp [userTotal, deleteDefault]
  · simp [userTotal, deleteDefault, Function.update_of_ne hk]

variable {cleaned : FundType → Prop}
  {filterTransform : FundStore → σ → FundItem → Exec (Option FundDescription × σ)}

/-- **A sweep cleans its own list** exactly when it starts from the end of the list, from an item of
it, from a cleared cell that there is the gas to look at, or from an item of another list in which
there is nothing to sweep. -/
theorem Sound.swapDust_cleansOwnList (h : Sound intact s)
    (hcleaned : ∀ t, cleaned t → intact t ∧ d.fundType ≠ t ∧ ChangesType t filterTransform ∧
      DustFilterSpec intact t d filterTransform fun _ _ => True)
    (hown : cleaned own) (hid : s.Live id → cleaned (s.fundById id).fundType)
    (haccept : ∀ t, cleaned t → ∀ a closure r, (Source.type t).Has s a →
      filterTransform s closure (s.fundById a) = .ok r → r.1 ≠ none)
    {closure closure' : σ} {fuel : ℕ}
    (hcall : s.swapDust closure id dustLimit own filterTransform interrupt fuel =
      .ok (s', closure', nextId))
    (hgone : id ≠ 0 → ¬ s.Live id → CleansOwnList own d dustLimit s s' id 0 ∧
      (nextId = 0 ↔ interrupt 0 = false)) :
    CleansOwnList own d dustLimit s s' id nextId ↔ Resumable own dustLimit s id interrupt := by
  have hkeep := fun hstart => (h.swapDust (hcleaned own hown).1 (hcleaned own hown).2.1 hstart
    (hcleaned own hown).2.2.2 trivial dustLimit interrupt fuel).of_ok hcall
  have hlist : id = 0 ∨ (Source.type own).Has s id →
      CleansOwnList own d dustLimit s s' id nextId := fun hstart => by
    obtain ⟨hs', -, hswept, -⟩ := hkeep (hstart.imp_left fun h0 => ⟨h0, rfl⟩)
    exact ⟨hswept, fun t ht ht' => (hswept.totals h hs' ht ht').1,
      fun u t ht ht' => (hswept.totals h hs' ht ht').2 u,
      fun h0 hnot => absurd hstart (not_or.mpr ⟨h0, hnot⟩)⟩
  have hother : s.Live id →
      (s'.fundById = s.fundById ∧ nextId = 0 → s.Harmless dustLimit id interrupt) ∧
        (s.Harmless dustLimit id interrupt → s' = s ∧ nextId = 0) := fun hlive => by
    obtain ⟨lay, hl, -⟩ := h
    exact hl.swapDust_harmless (hcleaned _ (hid hlive)).1 (hcleaned _ (hid hlive)).2.2.1
      (haccept _ (hid hlive)) ⟨hlive, rfl, rfl⟩ hcall
  constructor
  · intro hclean
    by_cases h0 : id = 0
    · exact .start h0
    by_cases hhas : (Source.type own).Has s id
    · exact .item hhas
    obtain ⟨hsame, hnext⟩ := hclean.reset h0 hhas
    by_cases hlive : s.Live id
    · exact .other hlive (fun ht => hhas ⟨hlive, ht, rfl⟩) ((hother hlive).1 ⟨hsame, hnext⟩)
    · exact .cleared hlive ((hgone h0 hlive).2.mp hnext)
  · rintro (h0 | hhas | ⟨hlive, hgas⟩ | ⟨hlive, -, hharmless⟩)
    · exact hlist (.inl h0)
    · exact hlist (.inr hhas)
    · by_cases h0 : id = 0
      · exact hlist (.inl h0)
      · obtain ⟨hclean, hnext⟩ := hgone h0 hlive
        rw [hnext.mpr hgas]
        exact hclean
    · obtain ⟨rfl, rfl⟩ := (hother hlive).2 hharmless
      exact cleansOwnList_refl own d dustLimit _ id

end OwnList

end FundStore

end Delegation
