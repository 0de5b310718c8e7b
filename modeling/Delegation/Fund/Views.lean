import Delegation.Fund.History
import Delegation.Fund.Totals
import Delegation.Lib.Walk

/-!
# The loops that only read

Besides the conversions, `fund_module.rs` has a family of loops that go through a list and change
nothing: sums, counts and the two `foreach_fund_*`, from which the views of the contract are made.
All of them are `forEachFund`, and `Sound.forEachFund` says what it does once and for all: with gas
for the whole list, it folds its closure over the queue, in the order of the direction.

`query_sum_all_funds_brute_force` is the other way to the same numbers: it goes through all ids that
were ever given out and does not look at any link.
-/

namespace Delegation

open Outcome Loop DoublyLinked

namespace FundStore

variable {β : Type}

/-- A loop from an id on along a link; the closure gets the item that the loop stands at. -/
def forEachFund (s : FundStore) (link : FundItem → ℕ) (closure : β → FundItem → Exec β) (id : ℕ)
    (init : β) (fuel : ℕ) : Exec β := do
  let c ← whileLoop (fun _ c => decide (0 < c.1))
    (walkBody (fun id => link (s.fundById id)) fun b id => closure b (s.fundById id)) .outOfGas
    fuel 0 (id, init)
  return c.2

/-- `foreach_fund_by_user_type` -/
def foreachFundByUserType (s : FundStore) (userId : ℕ) (fundType : FundType)
    (direction : SwapDirection) (closure : β → FundItem → Exec β) (init : β) (fuel : ℕ) : Exec β :=
  let userList := s.fundListByUser (userId, fundType)
  let id := match direction with
    | .forwards => userList.first
    | .backwards => userList.last
  s.forEachFund (FundItem.userListLink direction) closure id init fuel

/-- `count_fund_items_by_user_type` -/
def countFundItemsByUserType (s : FundStore) (userId : ℕ) (fundType : FundType)
    (filter : FundDescription → Bool) (fuel : ℕ) : Exec ℕ :=
  s.forEachFund FundItem.userListNext
    (fun count fundItem => .ok (if filter fundItem.fundDesc then count + 1 else count))
    (s.fundListByUser (userId, fundType)).first 0 fuel

end FundStore

/-- The list of a source. -/
def Source.ids (lay : Layout) : Source → List ℕ
  | type t => lay.byType t
  | user u t => lay.byUser (u, t)

namespace FundStore

variable {β : Type} {intact : FundType → Prop} {s : FundStore} {lay : Layout} {src : Source}
  {direction : SwapDirection} {t : FundType} {u fuel : ℕ}

/-! ### Loops are folds over queues -/

theorem Linked.mem_ids (h : Linked intact s lay) {id : ℕ} :
    id ∈ src.ids lay ↔ src.Has s id := by
  cases src with
  | type t => simp [Source.ids, h.mem_byType, Source.Has, Source.fundType, Source.sel]
  | user u t =>
    simp only [Source.ids, h.mem_byUser, Source.Has, Source.fundType, Source.sel,
      FundItem.userKey, Prod.mk.injEq, decide_eq_true_eq]
    tauto

theorem Linked.length_ids_le (h : Linked intact s lay) (src : Source) :
    (src.ids lay).length ≤ s.fundMaxId := by
  cases src with
  | type t => exact h.length_byType_le t
  | user u t => exact h.length_byUser_le (u, t)

/-- The links of a source lead through its list. -/
theorem Linked.leads (h : Linked intact s lay) (hi : ∀ t, src = .type t → intact t)
    (direction : SwapDirection) :
    src.start direction s = (direction.walk (src.ids lay)).headD 0 ∧
      Leads (fun id => src.link direction (s.fundById id)) 0 (direction.walk (src.ids lay)) := by
  cases src with
  | type t =>
    have hrep := h.types.rep t (hi t rfl)
    have hstart := rep_start_walk direction hrep
    cases direction with
    | forwards => exact ⟨hstart, hrep.seg.leads⟩
    | backwards => exact ⟨hstart, hrep.seg.leads_reverse⟩
  | user u t =>
    have hrep := h.users.rep (u, t) trivial
    have hstart := rep_start_walk direction hrep
    cases direction with
    | forwards => exact ⟨hstart, hrep.seg.leads⟩
    | backwards => exact ⟨hstart, hrep.seg.leads_reverse⟩

/-- With gas for the whole list, a loop visits the items of its source. -/
theorem Linked.whileLoop_visits (h : Linked intact s lay) (hi : ∀ t, src = .type t → intact t)
    (direction : SwapDirection) (visit : β → ℕ → Exec β) (init : β) (hfuel : s.fundMaxId ≤ fuel) :
    whileLoop (fun _ c => decide (0 < c.1))
        (walkBody (fun id => src.link direction (s.fundById id)) visit) .outOfGas fuel 0
        (src.start direction s, init) =
      ((direction.walk (src.ids lay)).foldlM visit init).map fun b => (0, b) := by
  obtain ⟨hstart, hleads⟩ := h.leads hi direction
  rw [hstart]
  have hguard : ∀ id ∈ direction.walk (src.ids lay), decide (0 < id) = true := by
    intro id hid
    have hhas := h.mem_ids.mp (direction.mem_walk.mp hid)
    exact decide_eq_true (Nat.pos_of_ne_zero (h.ne_zero hhas.1))
  have hlength : (direction.walk (src.ids lay)).length = (src.ids lay).length := by
    cases direction <;> simp [SwapDirection.walk]
  refine whileLoop_walkBody hleads hguard rfl visit .outOfGas ?_ 0 init
  rw [hlength]
  exact (h.length_ids_le src).trans hfuel

/-- The items of a source, in order. -/
theorem Linked.map_entry_ids (h : Linked intact s lay) (hco : Coherent s lay)
    (hi : intact src.fundType) :
    (src.ids lay).map s.entry = (s.queue src.fundType).filter fun e => src.sel e.userId := by
  rw [h.queue_eq hi, Layout.queue, List.filter_map]
  cases src with
  | type t => exact congrArg (List.map s.entry) (List.filter_eq_self.mpr fun _ _ => rfl).symm
  | user u t => exact congrArg (List.map s.entry) (hco u t)

/-- **Read loops are folds.** With gas for the whole list, a loop over the items of a type, or over
those of a user and type, is the fold of its closure over the queue, as far as the closure looks at
entries only. -/
theorem Sound.forEachFund (h : Sound intact s) (src : Source) (hi : intact src.fundType)
    (direction : SwapDirection) {closure : β → FundItem → Exec β} (f : β → Entry → Exec β)
    (hclosure : ∀ b item, closure b item = f b item.entry) (init : β)
    (hfuel : s.fundMaxId ≤ fuel) :
    s.forEachFund (src.link direction) closure (src.start direction s) init fuel =
      (direction.walk ((s.queue src.fundType).filter fun e => src.sel e.userId)).foldlM f init := by
  obtain ⟨lay, hl, hco⟩ := h
  have hintact : ∀ t, src = .type t → intact t := by
    rintro t rfl
    exact hi
  have hvisits : (fun b id => closure b (s.fundById id)) = fun b id => f b (s.entry id) := by
    funext b id
    exact hclosure b (s.fundById id)
  rw [FundStore.forEachFund, hvisits,
    hl.whileLoop_visits hintact direction (fun b id => f b (s.entry id)) init hfuel,
    ← hl.map_entry_ids hco hi, SwapDirection.walk_map, List.foldlM_map]
  cases (direction.walk (src.ids lay)).foldlM (fun b id => f b (s.entry id)) init <;> rfl

theorem Sound.foreachFundByUserType (h : Sound intact s) (hi : intact t)
    (direction : SwapDirection) {closure : β → FundItem → Exec β} (f : β → Entry → Exec β)
    (hclosure : ∀ b item, closure b item = f b item.entry) (init : β)
    (hfuel : s.fundMaxId ≤ fuel) :
    s.foreachFundByUserType u t direction closure init fuel =
      (direction.walk ((s.queue t).filter fun e => e.userId = u)).foldlM f init := by
  refine Eq.trans ?_ (h.forEachFund (.user u t) hi direction f hclosure init hfuel)
  cases direction <;> rfl

/-! ### Sums and counts -/

theorem Sound.mem_queue (h : Sound intact s) (hi : intact t) {e : Entry} (he : e ∈ s.queue t) :
    e.fundType = t ∧ 0 < e.balance := by
  obtain ⟨lay, hl, -⟩ := h
  rw [hl.queue_eq hi] at he
  obtain ⟨id, hid, rfl⟩ := List.mem_map.mp he
  exact ⟨hl.fundType_eq hid, hl.live hid⟩

theorem Sound.countFundItemsByUserType (h : Sound intact s) (hi : intact t)
    (filter : FundDescription → Bool) (hfuel : s.fundMaxId ≤ fuel) :
    s.countFundItemsByUserType u t filter fuel =
      .ok ((s.queue t).countP fun e => e.userId = u && filter e.fundDesc) := by
  refine (h.foreachFundByUserType hi .forwards (fun count e => .ok
    (if filter e.fundDesc then count + 1 else count)) (fun _ _ => rfl) 0 hfuel).trans ?_
  rw [SwapDirection.walk, foldlM_ok, foldl_count_ite fun e : Entry => filter e.fundDesc,
    Nat.zero_add, List.countP_filter]
  refine congrArg Except.ok (List.countP_congr fun e _ => ?_)
  rw [Bool.and_comm]

end FundStore

end Delegation
