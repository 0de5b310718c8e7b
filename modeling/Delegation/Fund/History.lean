import Mathlib.Logic.Relation
import Delegation.Fund.Destroy

/-!
# Histories of the fund store

The two results about the fund module on its own. Every store that is reachable from the empty
one by calls of the module satisfies the representation invariant (`wellFormed_of_reachable`), and
on every such store the converting loops refine the queue program `drain`
(`WellFormed.splitConvert_refines`).
-/

namespace Delegation

open Outcome Loop DoublyLinked

namespace FundStore

/-- The lists by type and by user are what `Linked` says, for all types, and the lists by user
keep the order of the lists by type. -/
def WellFormed (s : FundStore) : Prop := ∃ lay, Linked (fun _ => True) s lay ∧ Coherent s lay

/-- A filter maps the items of the source type only to descriptions of another type. -/
def ChangesType {σ : Type} (t : FundType)
    (filterTransform : FundStore → σ → FundItem → Exec (Option FundDescription × σ)) : Prop :=
  ∀ s closure item d closure', item.fundType = t →
    filterTransform s closure item = .ok (some d, closure') → d.fundType ≠ t

/-- One call of the fund module that returns. A call that panics is rolled back. -/
inductive Step : FundStore → FundStore → Prop
  | increase (s : FundStore) (userId : ℕ) (fundDesc : FundDescription) (amount : ℕ) :
      Step s (s.increaseFundBalance userId fundDesc amount)
  | byType {σ : Type} {s s' : FundStore} {closure closure' : σ} {optMaxAmount rest : Option ℕ}
      {sourceType : FundType} {direction : SwapDirection}
      {filterTransform : FundStore → σ → FundItem → Exec (Option FundDescription × σ)}
      {interrupt : ℕ → Bool} {dryRun : Bool} {users : List ℕ}
      (hfilter : ChangesType sourceType filterTransform)
      (hcall : s.splitConvertMaxByType closure optMaxAmount sourceType direction filterTransform
        interrupt dryRun = .ok (s', closure', rest, users)) : Step s s'
  | withCheckpoint {σ : Type} {s s' : FundStore} {closure closure' : σ} {currentId nextId : ℕ}
      {sourceType : FundType} {direction : SwapDirection}
      {filterTransform : FundStore → σ → FundItem → Exec (Option FundDescription × σ)}
      {interrupt : ℕ → Bool} {fuel : ℕ}
      (hfilter : ChangesType sourceType filterTransform)
      (hid : currentId = 0 ∨ s.Live currentId ∧ (s.fundById currentId).fundType = sourceType)
      (hcall : s.splitConvertMaxByTypeWithCheckpoint closure currentId sourceType direction
        filterTransform interrupt fuel = .ok (s', closure', nextId)) : Step s s'
  | byUser {s s' : FundStore} {optMaxAmount rest : Option ℕ} {userId total : ℕ}
      {sourceType : FundType} {direction : SwapDirection}
      {filterTransform : FundDescription → Option FundDescription}
      {interrupt : ℕ → Bool} {fuel : ℕ}
      (hfilter : ∀ d d', d.fundType = sourceType → filterTransform d = some d' →
        d'.fundType ≠ sourceType)
      (hcall : s.splitConvertMaxByUser optMaxAmount userId sourceType direction filterTransform
        interrupt fuel = .ok (s', rest, total)) : Step s s'
  | destroy {s s' : FundStore} {userId total : ℕ} {sourceType : FundType}
      {interrupt : ℕ → Bool} {fuel : ℕ}
      (hcall : s.destroyAllForUser userId sourceType interrupt fuel = .ok (s', total)) : Step s s'

/-- The stores that calls of the module can produce. -/
def Reachable (s : FundStore) : Prop := Relation.ReflTransGen Step empty s

variable {s s' : FundStore}

/-- Any traversal with such a filter keeps a store well formed. -/
theorem WellFormed.traversal {σ : Type} {T : Traversal σ} (src : Source)
    (direction : SwapDirection) {overrun : Panic} {budget : ℕ} {c c' : Cursor σ}
    (hrun : T.run overrun budget c = .ok c') (h : c.store.WellFormed)
    (hnext : T.nextId = src.link direction)
    (hfilter : ChangesType src.fundType T.filterTransform)
    (hid : c.id = 0 ∨ src.Has c.store c.id) :
    c'.store.WellFormed := by
  have hspec : T.FilterSpec (fun _ => True) src (fun _ _ _ => True) fun _ => True := by
    intro s lay closure max id _ _ ⟨_, ht, _⟩ _ _
    refine Spec.of_forall_ok ?_
    rintro ⟨tr, closure'⟩ hok
    cases tr with
    | none => trivial
    | some d =>
      refine ⟨hfilter s closure _ d closure' ht hok, ?_⟩
      split_ifs
      · trivial
      · exact fun _ _ _ => trivial
  exact ((Traversal.run_spec hnext trivial hspec trivial budget ⟨h, hid, trivial⟩).of_ok hrun).1

theorem wellFormed_empty : empty.WellFormed := ⟨_, linked_empty, coherent_empty⟩

/-- One call keeps a store well formed. -/
theorem WellFormed.step (h : s.WellFormed) (hs : Step s s') : s'.WellFormed := by
  obtain ⟨lay, hl, hco⟩ := id h
  cases hs with
  | increase _ userId fundDesc amount =>
    obtain ⟨lay', hi⟩ := hl.increaseFundBalance userId fundDesc amount
    exact ⟨lay', hi.linked, hi.coherent hco⟩
  | @byType σ _ _ closure closure' max rest t direction filter interrupt dryRun users hfilter
      hcall =>
    obtain ⟨c', hrun, hc⟩ := bind_eq_ok.mp hcall
    obtain rfl : c'.store = s' := congrArg Prod.fst (Except.ok.inj hc)
    exact WellFormed.traversal (.type t) direction hrun h rfl hfilter
      (hl.start_live (.type t) direction)
  | @withCheckpoint σ _ _ closure closure' currentId nextId t direction filter interrupt fuel
      hfilter hid hcall =>
    obtain ⟨c', hrun, hc⟩ := bind_eq_ok.mp hcall
    obtain rfl : c'.store = s' := congrArg Prod.fst (Except.ok.inj hc)
    refine WellFormed.traversal (.type t) direction hrun h rfl hfilter ?_
    change (if currentId = 0 then _ else currentId) = 0 ∨ _
    split_ifs with h0
    · exact hl.start_live (.type t) direction
    · exact hid.imp_right fun ⟨h1, h2⟩ => ⟨h1, h2, rfl⟩
  | @byUser _ _ max rest u total t direction filter interrupt fuel hfilter hcall =>
    obtain ⟨c', hrun, hc⟩ := bind_eq_ok.mp hcall
    obtain rfl : c'.store = s' := congrArg Prod.fst (Except.ok.inj hc)
    refine WellFormed.traversal (.user u t) direction hrun h rfl ?_
      (hl.start_live (.user u t) direction)
    intro s closure item d closure' ht hok
    exact hfilter _ d ht (congrArg Prod.fst (Except.ok.inj hok))
  | @destroy _ _ u total t interrupt fuel hcall =>
    obtain ⟨lay', hl', hco', -⟩ := (hl.destroyAllForUser hco u t interrupt fuel).of_ok hcall
    exact ⟨lay', hl', hco'⟩

/-- **Every reachable store is well formed.** -/
theorem wellFormed_of_reachable (h : Reachable s) : s.WellFormed := by
  induction h with
  | refl => exact wellFormed_empty
  | tail _ hs ih => exact ih.step hs

/-- Two deposits, one of which is converted in part. -/
theorem wellFormed_of_reachable_deposits : ∃ s' : FundStore,
    ((empty.increaseFundBalance 1 (.waiting 3) 5).increaseFundBalance 2 (.waiting 4) 7
      ).splitConvertMaxByType () (some 6) .waiting .forwards (pureFilter fun _ => some .active)
      (fun _ => false) false = .ok (s', (), some 0, [1, 2]) ∧ s'.WellFormed := by
  have hfilter : ChangesType .waiting (pureFilter fun _ => some .active) := by
    intro s closure item d closure' _ h
    cases h
    decide
  obtain ⟨s', hcall⟩ : ∃ s', ((empty.increaseFundBalance 1 (.waiting 3) 5).increaseFundBalance 2
      (.waiting 4) 7).splitConvertMaxByType () (some 6) .waiting .forwards
      (pureFilter fun _ => some .active) (fun _ => false) false =
        .ok (s', (), some 0, [1, 2]) := ⟨_, rfl⟩
  exact ⟨s', hcall, wellFormed_of_reachable
    (((Relation.ReflTransGen.refl.tail (.increase _ 1 (.waiting 3) 5)).tail
      (.increase _ 2 (.waiting 4) 7)).tail (.byType hfilter hcall))⟩

/-! ### The queues of a store -/

/-- The ids met from `id` on along a link. -/
def idsFrom (next : ℕ → ℕ) : ℕ → ℕ → List ℕ
  | 0, _ => []
  | n + 1, id => if id = 0 then [] else id :: idsFrom next n (next id)

/-- The ids of a type, from the first on. -/
def typeIds (s : FundStore) (t : FundType) : List ℕ :=
  idsFrom (fun id => (s.fundById id).typeListNext) s.fundMaxId (s.fundListByType t).first

/-- The queue of a type: its items in order, without ids and links. -/
def queue (s : FundStore) (t : FundType) : List Entry := (s.typeIds t).map s.entry

theorem idsFrom_eq {next prev : ℕ → ℕ} {l : List ℕ} {p n : ℕ} (h : Seg next prev p l 0)
    (h0 : 0 ∉ l) (hn : l.length ≤ n) : idsFrom next n (l.headD 0) = l := by
  induction l generalizing p n with
  | nil => cases n <;> simp [idsFrom]
  | cons a l ih =>
    obtain ⟨-, hnext, hseg⟩ := h
    rw [List.mem_cons, not_or] at h0
    cases n with
    | zero => simp at hn
    | succ n =>
      rw [List.headD_cons, idsFrom, if_neg (Ne.symm h0.1), hnext, ih hseg h0.2 (by simpa using hn)]

/-- The links of a linked store lead through the list of its layout. -/
theorem Linked.typeIds_eq {intact : FundType → Prop} {lay : Layout} (h : Linked intact s lay)
    {t : FundType} (hi : intact t) : s.typeIds t = lay.byType t := by
  have hrep := h.types.rep t hi
  have hfirst : (s.fundListByType t).first = (lay.byType t).headD 0 := hrep.first
  unfold typeIds
  rw [hfirst]
  exact idsFrom_eq hrep.seg (h.types.null t) (h.length_byType_le t)

theorem Linked.queue_eq {intact : FundType → Prop} {lay : Layout} (h : Linked intact s lay)
    {t : FundType} (hi : intact t) : s.queue t = lay.queue s t := by
  unfold FundStore.queue Layout.queue
  rw [h.typeIds_eq hi]

/-- The store `s'` is the store `s` after a conversion of the type `t` that went as `r` says: the
entries that stay keep their order, the amounts taken enter their queues one after the other. -/
structure Refines (s : FundStore) (t : FundType) (direction : SwapDirection) (r : Drained)
    (s' : FundStore) : Prop where
  wellFormed : s'.WellFormed
  source : s'.queue t = direction.walk r.kept
  target : ∀ t', t' ≠ t → s'.queue t' =
    (r.extracted.filter (·.fundType = t')).foldl Entry.enqueue (s.queue t')

theorem Linked.refines {lay lay' : Layout} {t : FundType} {direction : SwapDirection} {r : Drained}
    (h : Linked (fun _ => True) s lay) (hd : Drains (fun _ => True) t direction s lay r s' lay') :
    Refines s t direction r s' where
  wellFormed := ⟨lay', hd.linked, hd.coherent⟩
  source := (hd.linked.queue_eq trivial).trans hd.source
  target t' ht' := by rw [hd.linked.queue_eq trivial, h.queue_eq trivial, hd.target t' ht']

/-- **Queue refinement.** On a well formed store, `split_convert_max_by_type` and
`split_convert_max_by_user` do to the queues what the list program `drain` says, and return what it
returns. -/
theorem WellFormed.splitConvert_refines (h : s.WellFormed) (t : FundType)
    (direction : SwapDirection) (optMaxAmount : Option ℕ) (interrupt : ℕ → Bool) :
    (∀ f : Entry → Option FundDescription,
      (∀ e d, e.fundType = t → f e = some d → d.fundType ≠ t) →
      let r := drain (fun _ => true) f interrupt 0 optMaxAmount (direction.walk (s.queue t))
      r.visitedUsers.length ≤ maxAffectedUsers →
      ∃ s' users, s.splitConvertMaxByType () optMaxAmount t direction
          (pureFilter fun item => f item.entry) interrupt false =
            .ok (s', (), r.optMaxAmount, users) ∧
        Refines s t direction r s' ∧ users.Pairwise (· < ·) ∧
        ∀ u, u ∈ users ↔ u ∈ r.visitedUsers) ∧
    ∀ (userId fuel : ℕ) (g : FundDescription → Option FundDescription),
      (∀ d d', d.fundType = t → g d = some d' → d'.fundType ≠ t) →
      let r := drain (fun u => u = userId) (fun e => g e.fundDesc) interrupt 0 optMaxAmount
        (direction.walk (s.queue t))
      r.visitedUsers.length ≤ fuel →
      ∃ s', s.splitConvertMaxByUser optMaxAmount userId t direction g interrupt fuel =
          .ok (s', r.optMaxAmount, (r.extracted.map Entry.balance).sum) ∧
        Refines s t direction r s' := by
  obtain ⟨lay, hl, hco⟩ := h
  rw [hl.queue_eq trivial]
  constructor
  · intro f hf r hle
    obtain ⟨s', lay', hok, hd⟩ :=
      (hl.splitConvertMaxByType hco trivial direction optMaxAmount interrupt hf).1 hle
    exact ⟨s', _, hok, hl.refines hd, pairwise_affectedUsersSortDedup _, fun u =>
      mem_affectedUsersSortDedup⟩
  · intro userId fuel g hg r hle
    obtain ⟨s', lay', hok, hd⟩ := (hl.splitConvertMaxByUser hco trivial direction optMaxAmount
      userId interrupt fuel hg).1 hle
    exact ⟨s', hok, hl.refines hd⟩

/-- One deposit of 5, of which 3 are activated, through the list of the type and through the list
of the user. -/
theorem WellFormed.splitConvert_refines_deposit :
    (∃ s' users, (empty.increaseFundBalance 1 (.waiting 3) 5).splitConvertMaxByType () (some 3)
        .waiting .backwards (pureFilter fun _ => some .active) (fun _ => false) false =
          .ok (s', (), some 0, users) ∧
      s'.queue .waiting = [⟨1, .waiting 3, 2⟩] ∧ s'.queue .active = [⟨1, .active, 3⟩]) ∧
    ∃ s', (empty.increaseFundBalance 1 (.waiting 3) 5).splitConvertMaxByUser (some 3) 1 .waiting
        .backwards (fun _ => some .active) (fun _ => false) 1 = .ok (s', some 0, 3) ∧
      s'.queue .waiting = [⟨1, .waiting 3, 2⟩] ∧ s'.queue .active = [⟨1, .active, 3⟩] := by
  obtain ⟨h1, h2⟩ := WellFormed.splitConvert_refines
    (wellFormed_empty.step (.increase empty 1 (.waiting 3) 5)) .waiting .backwards (some 3)
    fun _ => false
  constructor
  · obtain ⟨s', users, hok, href, -⟩ := h1 (fun _ => some .active) (by simp +decide) (by decide)
    exact ⟨s', users, hok, href.source, href.target .active (by decide)⟩
  · obtain ⟨s', hok, href⟩ := h2 1 1 (fun _ => some .active) (by simp +decide) (by decide)
    exact ⟨s', hok, href.source, href.target .active (by decide)⟩

end FundStore

end Delegation
