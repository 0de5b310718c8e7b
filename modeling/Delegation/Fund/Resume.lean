import Mathlib.Computability.StateTransition
import Delegation.Fund.Transformations

/-!
# Resuming swaps

A swap by type whose filter accepts every item of its source never leaves an item behind: it takes
the first item of its walk whole and goes on to the item that is then the first one, or it takes a
part of it and is done. So a swap is a chain of swaps of one item, `swapOne`, each of which starts
from the storage alone. Where an interruption cuts the chain does not matter, and the next call
resumes it.
-/

namespace Delegation

open Outcome Loop DoublyLinked StateTransition

namespace Traversal

variable {T : Traversal Unit} {g : FundDescription → Option FundDescription} {c : Cursor Unit}

/-- A visit through an accepting filter, from the conversion of its item. -/
theorem visit_of_splitConvert (hT : T.filterTransform = pureFilter fun item => g item.fundDesc)
    (hdry : T.dryRun = false) {d : FundDescription} {s₂ : FundStore} {max : Option ℕ}
    {item₁ : FundItem} {x : ℕ} (hd : g (c.store.fundById c.id).fundDesc = some d)
    (hconv : c.store.splitConvertIndividualFund c.optMaxAmount d (c.store.fundById c.id) =
      .ok (s₂, max, item₁, x)) :
    T.visit c = .ok
      { c with
        store := s₂.setFund c.id item₁
        optMaxAmount := max
        id := T.nextId (c.store.fundById c.id)
        visitedUsers := c.visitedUsers ++ [(c.store.fundById c.id).userId]
        totalTransformed := c.totalTransformed + x } := by
  unfold visit
  rw [hT]
  simp only [pureFilter, ok_bind, hd, hdry, Bool.false_eq_true, if_false, hconv, pure_eq_ok]

end Traversal

namespace FundStore

variable {intact : FundType → Prop} {s : FundStore} {lay : Layout} {src : FundType}
  {direction : SwapDirection} {g : FundDescription → Option FundDescription}

/-- Interrupts after the first item. -/
def afterOne : ℕ → Bool := fun k => decide (0 < k)

/-- The swap of one item, on the storage and what remains to be swapped. -/
def swapOne (src : FundType) (direction : SwapDirection)
    (g : FundDescription → Option FundDescription) (c : FundStore × ℕ) : Option (FundStore × ℕ) :=
  if c.2 = 0 then none
  else
    match c.1.splitConvertMaxByType () (some c.2) src direction
        (pureFilter fun item => g item.fundDesc) afterOne false with
    | .ok (s, _, rest, _) => if rest.getD 0 < c.2 then some (s, rest.getD 0) else none
    | .error _ => none

/-- Before and after one visit of a swap. -/
theorem swapOne_visit {T : Traversal Unit} (hi : intact src)
    (hg : ∀ d, d.fundType = src → ∃ d', g d = some d' ∧ d'.fundType ≠ src)
    (hT : T.filterTransform = pureFilter fun item => g item.fundDesc) (hdry : T.dryRun = false)
    (hnext : T.nextId = FundItem.typeListLink direction) {c : Cursor Unit} {a m : ℕ} {R : List ℕ}
    (hat : Traversal.At intact (.type src) direction c lay [] (a :: R))
    (hmax : c.optMaxAmount = some m) (hm : m ≠ 0) :
    ∃ c' lay' m', T.visit c = .ok c' ∧ c'.optMaxAmount = some m' ∧
      swapOne src direction g (c.store, m) = some (c'.store, m') ∧ Linked intact c'.store lay' ∧
      Coherent c'.store lay' ∧
      (m' = 0 ∨ Traversal.At intact (.type src) direction c' lay' [] R) := by
  obtain rfl : c.id = a := hat.id_eq rfl
  have hlive : c.store.Live c.id := hat.live
  have htype : (c.store.fundById c.id).fundType = src := hat.fundType_eq
  obtain ⟨d, hd, hdt⟩ := hg _ htype
  have hleft : c.optMaxAmount ≠ some 0 := by
    rw [hmax]
    simpa using hm
  obtain ⟨s₂, item₁, hconv, lay', hcv⟩ := hat.linked.convert hlive hleft (d := d)
    (.inl (by rw [htype]; exact hdt.symm))
  have hvisit := Traversal.visit_of_splitConvert hT hdry hd hconv
  have hbal : 0 < (c.store.fundById c.id).balance := hlive
  -- the swap of one item makes the same visit and stops
  have hstart : c.store.firstIdOfType src direction = c.id := by
    have := (hat.linked.at_start hat.coherent (.type src) direction none hi).id
    rw [show direction.walk (lay.byType (Source.type src).fundType) = c.id :: R from hat.walk]
      at this
    exact this
  have hone : c.store.splitConvertMaxByType () (some m) src direction
      (pureFilter fun item => g item.fundDesc) afterOne false =
        .ok (s₂.setFund c.id item₁, (), some (m - min m (c.store.fundById c.id).balance),
          affectedUsersSortDedup [(c.store.fundById c.id).userId]) := by
    have hvisit₁ := Traversal.visit_of_splitConvert
      (T := { nextId := FundItem.typeListLink direction
              filterTransform := pureFilter fun item => g item.fundDesc
              interrupt := afterOne, dryRun := false })
      (c := { c with visitedUsers := [], totalTransformed := 0 }) rfl rfl hd hconv
    simp only [hmax] at hvisit₁
    have hpos : 0 < c.id := Nat.pos_of_ne_zero (hat.linked.ne_zero hlive)
    unfold FundStore.splitConvertMaxByType
    simp only [hstart]
    rw [Traversal.run_of_visit hvisit₁ (by simp [Traversal.guard, afterOne]),
      if_pos (by simp [Traversal.guard, afterOne, hpos, hm]), if_neg (by decide)]
    rfl
  have hx : takenBalance c.optMaxAmount (c.store.fundById c.id).balance =
      min m (c.store.fundById c.id).balance := by rw [hmax, takenBalance]
  refine ⟨_, lay', m - min m (c.store.fundById c.id).balance, hvisit, ?_, ?_, hcv.linked,
    hcv.coherent hat.coherent, ?_⟩
  · rw [hx, hmax]
    rfl
  · simp only [swapOne, if_neg hm, hone, Option.getD_some]
    rw [if_pos (by omega)]
  · rcases Nat.eq_zero_or_pos (m - min m (c.store.fundById c.id).balance) with h0 | hpos
    · exact .inl h0
    · -- the item was taken whole, and the next one is now the first of the walk
      right
      have hnew := fun max visited total => (hat.convert hi rfl hdt hcv max visited total).1
      simp only [if_pos (show takenBalance c.optMaxAmount (c.store.fundById c.id).balance =
        (c.store.fundById c.id).balance by omega), List.append_nil] at hnew
      rw [hnext]
      exact hnew _ _ _

/-- What holds between the visits of a swap from `s`: nothing remains, or the next item is the first
of the walk. -/
def Chained (intact : FundType → Prop) (src : FundType) (direction : SwapDirection)
    (g : FundDescription → Option FundDescription) (s : FundStore) (requested : ℕ)
    (c : Cursor Unit) : Prop :=
  ∃ lay m, c.optMaxAmount = some m ∧ Linked intact c.store lay ∧ Coherent c.store lay ∧
    Reaches (swapOne src direction g) (s, requested) (c.store, m) ∧
    (m = 0 ∨ ∃ R, Traversal.At intact (.type src) direction c lay [] R)

theorem Chained.visit {T : Traversal Unit} (hi : intact src)
    (hg : ∀ d, d.fundType = src → ∃ d', g d = some d' ∧ d'.fundType ≠ src)
    (hT : T.filterTransform = pureFilter fun item => g item.fundDesc) (hdry : T.dryRun = false)
    (hnext : T.nextId = FundItem.typeListLink direction) {requested k : ℕ} {c : Cursor Unit}
    (hc : Chained intact src direction g s requested c) (hguard : T.guard k c = true) :
    Spec (T.visit c) (Chained intact src direction g s requested) (fun _ => True) := by
  obtain ⟨lay, m, hmax, -, -, hreach, hat⟩ := hc
  simp only [Traversal.guard, Bool.and_eq_true, decide_eq_true_eq] at hguard
  have hm : m ≠ 0 := fun h0 => hguard.2 (by rw [hmax, h0])
  obtain ⟨R, hat⟩ := hat.resolve_left hm
  cases R with
  | nil =>
    have := hat.id
    simp only [List.filter_nil, List.headD_nil] at this
    omega
  | cons a R =>
    obtain ⟨c', lay', m', hvisit, hmax', hone, hl, hco, hnext'⟩ :=
      swapOne_visit hi hg hT hdry hnext hat hmax hm
    rw [hvisit]
    exact ⟨lay', m', hmax', hl, hco, hreach.tail hone, hnext'.imp_right fun h => ⟨R, h⟩⟩

/-- **A swap by type is a chain of swaps of one item**, however it is interrupted. -/
theorem Linked.splitConvertMaxByType_reaches (h : Linked intact s lay) (hco : Coherent s lay)
    (hi : intact src) (hg : ∀ d, d.fundType = src → ∃ d', g d = some d' ∧ d'.fundType ≠ src)
    (direction : SwapDirection) (requested : ℕ) (interrupt : ℕ → Bool) :
    Spec (s.splitConvertMaxByType () (some requested) src direction
        (pureFilter fun item => g item.fundDesc) interrupt false)
      (fun r => Reaches (swapOne src direction g) (s, requested) (r.1, r.2.2.1.getD 0))
      (fun _ => True) := by
  refine Spec.bind (P := Chained intact src direction g s requested) ?_ fun c hc => ?_
  · refine (whileLoop_spec (J := fun _ => Chained intact src direction g s requested)
      (E := fun _ => True) trivial (fun k c hc hguard => hc.visit hi hg rfl rfl rfl hguard)
      maxAffectedUsers 0 _ ?_).imp fun c ⟨_, hc, _⟩ => hc
    exact ⟨lay, requested, rfl, h, hco, .refl, .inr ⟨_, h.at_start hco (.type src) direction _ hi⟩⟩
  · obtain ⟨lay', m, hmax, -, -, hreach, -⟩ := hc
    simp only [pure_eq_ok, spec_ok, hmax]
    exact hreach

/-! ### The swap of one item -/

variable {s' : FundStore} {dst : FundType} {requested rest : ℕ}

theorem Sound.swapByType (h : Sound intact s) (hi : intact src) (dst : FundType)
    (hg : ∀ d, d.fundType = src → ∃ d', g d = some d' ∧ d'.fundType = dst) (hne : dst ≠ src)
    (direction : SwapDirection) (requested : ℕ) (interrupt : ℕ → Bool) :
    Spec (s.splitConvertMaxByType () (some requested) src direction
        (pureFilter fun item => g item.fundDesc) interrupt false)
      (fun r => (∃ moved amount, SwapSpec intact s src dst g (fun _ => True) requested interrupt r.1
          (r.2.2.1.getD 0) moved amount) ∧
        Reaches (swapOne src direction g) (s, requested) (r.1, r.2.2.1.getD 0))
      (IsCapacity interrupt) := by
  obtain ⟨lay, hl, hco⟩ := h
  have hspec := hl.swapByType hco hi dst hg hne direction requested interrupt
  have hreach := hl.splitConvertMaxByType_reaches hco hi
    (fun d hd => (hg d hd).imp fun _ ⟨hgd, ht⟩ => ⟨hgd, ht ▸ hne⟩) direction requested interrupt
  exact (hspec.and hreach).mono
    (fun r ⟨⟨moved, amount, hsw⟩, hr⟩ => ⟨⟨moved, amount, hsw.forget⟩, hr⟩) fun _ he => he.1

/-- The swap of one item moves something. -/
theorem Sound.swapOne_eq_some (h : Sound intact s) (hi : intact src)
    (hg : ∀ d, d.fundType = src → ∃ d', g d = some d' ∧ d'.fundType = dst) (hne : dst ≠ src)
    (hone : swapOne src direction g (s, requested) = some (s', rest)) :
    ∃ moved amount, Swapped intact s s' src dst g (fun _ => True) moved amount ∧
      rest + amount = requested ∧ 0 < amount := by
  have hspec := h.swapByType hi dst hg hne direction requested afterOne
  simp only [swapOne] at hone
  split_ifs at hone with h0
  split at hone
  · next s₁ _ rest₁ _ hrun =>
    obtain ⟨⟨moved, amount, hsw⟩, -⟩ := hspec.of_ok hrun
    split_ifs at hone with hlt
    simp only [Option.some.injEq, Prod.mk.injEq] at hone
    obtain ⟨rfl, rfl⟩ := hone
    have hadd := hsw.rest_add
    simp only at hadd
    exact ⟨moved, amount, hsw.swapped, hadd, by omega⟩
  · cases hone

/-- It gets stuck only when nothing is requested or nothing is there. -/
theorem Sound.swapOne_eq_none (h : Sound intact s) (hi : intact src)
    (hg : ∀ d, d.fundType = src → ∃ d', g d = some d' ∧ d'.fundType = dst) (hne : dst ≠ src)
    (hone : swapOne src direction g (s, requested) = none) :
    requested = 0 ∨ s.typeTotal src = 0 := by
  have hspec := h.swapByType hi dst hg hne direction requested afterOne
  simp only [swapOne] at hone
  split_ifs at hone with h0
  · exact .inl h0
  refine .inr (Nat.eq_zero_of_not_pos fun hpos => ?_)
  split at hone
  · next s₁ _ rest₁ _ hrun =>
    obtain ⟨⟨moved, amount, hsw⟩, -⟩ := hspec.of_ok hrun
    have hadd := hsw.rest_add
    have := hsw.progress rfl (Nat.pos_of_ne_zero h0) hpos
    simp only at hadd
    rw [if_pos (by omega)] at hone
    cases hone
  · next e hrun =>
    have := (hspec.of_error hrun).2 1 (by decide)
    cases this

theorem Sound.swapOne_eq_none_iff (h : Sound intact s) (hi : intact src)
    (hg : ∀ d, d.fundType = src → ∃ d', g d = some d' ∧ d'.fundType = dst) (hne : dst ≠ src) :
    swapOne src direction g (s, requested) = none ↔ requested = 0 ∨ s.typeTotal src = 0 := by
  refine ⟨h.swapOne_eq_none hi hg hne, fun h0 => ?_⟩
  cases hone : swapOne src direction g (s, requested) with
  | none => rfl
  | some c =>
    obtain ⟨moved, amount, hsw, hadd, hpos⟩ := h.swapOne_eq_some hi hg hne hone
    have htotal := hsw.shift.typeTotal src
    rw [if_pos rfl, if_neg hne.symm] at htotal
    omega

/-! ### The transformations by type -/

theorem Sound.swapWaitingToActive_reaches (h : Sound intact s) (hi : intact .waiting)
    (remaining : ℕ) (interrupt : ℕ → Bool) :
    Spec (s.swapWaitingToActive remaining interrupt)
      (fun r => (∃ moved amount, SwapSpec intact s .waiting .active (fun _ => some .active)
          (fun _ => True) remaining interrupt r.1 r.2.1 moved amount) ∧
        Reaches (swapOne .waiting .forwards fun _ => some .active) (s, remaining) (r.1, r.2.1))
      (IsCapacity interrupt) :=
  Spec.bind (h.swapByType hi .active (fun _ _ => ⟨_, rfl, rfl⟩) (by decide) .forwards remaining
    interrupt) fun _ hr => hr

theorem unstakedToDeferred_of_fundType (d : FundDescription) (hd : d.fundType = .unStaked) :
    ∃ d', unstakedToDeferred d = some d' ∧ d'.fundType = .deferredPayment := by
  cases d <;> first | exact ⟨_, rfl, rfl⟩ | cases hd

theorem Sound.swapUnstakedToDeferredPayment_reaches (h : Sound intact s) (hi : intact .unStaked)
    (remaining : ℕ) (interrupt : ℕ → Bool) :
    Spec (s.swapUnstakedToDeferredPayment remaining interrupt)
      (fun r => (∃ moved amount, SwapSpec intact s .unStaked .deferredPayment unstakedToDeferred
          (fun _ => True) remaining interrupt r.1 r.2 moved amount) ∧
        Reaches (swapOne .unStaked .forwards unstakedToDeferred) (s, remaining) (r.1, r.2))
      (IsCapacity interrupt) :=
  Spec.bind (h.swapByType hi .deferredPayment unstakedToDeferred_of_fundType (by decide) .forwards
    remaining interrupt) fun _ hr => hr

theorem Sound.swapActiveToDeferredPayment_reaches (h : Sound intact s) (hi : intact .active)
    (currentBlNonce : UInt64) (remaining : ℕ) (interrupt : ℕ → Bool) :
    Spec (s.swapActiveToDeferredPayment currentBlNonce remaining interrupt)
      (fun r => (∃ moved amount, SwapSpec intact s .active .deferredPayment
          (fun _ => some (.deferredPayment currentBlNonce)) (fun _ => True) remaining interrupt r.1
          r.2 moved amount) ∧
        Reaches (swapOne .active .backwards fun _ => some (.deferredPayment currentBlNonce))
          (s, remaining) (r.1, r.2))
      (IsCapacity interrupt) :=
  Spec.bind (h.swapByType hi .deferredPayment (fun _ _ => ⟨_, rfl, rfl⟩) (by decide) .backwards
    remaining interrupt) fun _ hr => hr

end FundStore

end Delegation
