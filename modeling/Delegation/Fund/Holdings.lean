import Mathlib.Algebra.Order.BigOperators.Group.Finset
import Delegation.Fund.Traverse

/-!
# Holdings

`FundStore.holding` sums the balances of the items that a predicate on the user and the description
selects. The cached totals are instances of it, and so is what the accounts of a claim about locked
funds or about one user's stake speak of.

Converting an item changes the description of a part of it and nothing else. `Relabelled` says so
of a whole call: the holdings before and after differ by a list of such changes. Calls compose, and
a predicate that none of the changes affects keeps its holding.
-/

namespace Delegation

open Outcome

instance : Fintype FundType where
  elems := {.withdrawOnly, .waiting, .pendingAct, .activeFailed, .active, .unStaked,
    .deferredPayment}
  complete t := by cases t <;> decide

/-! ### Weighing a queue -/

namespace Entry

variable {p : ℕ → FundDescription → Bool} {e : Entry} {q : List Entry} {u x : ℕ}

/-- The balance of an entry, if it is selected. -/
def weight (p : ℕ → FundDescription → Bool) (e : Entry) : ℕ :=
  if p e.userId e.fundDesc then e.balance else 0

/-- The selected balance of a queue. -/
def weigh (p : ℕ → FundDescription → Bool) (q : List Entry) : ℕ := (q.map (weight p)).sum

@[simp]
theorem weigh_nil : weigh p [] = 0 := rfl

@[simp]
theorem weigh_cons : weigh p (e :: q) = weight p e + weigh p q := rfl

theorem weigh_addToLast {e' : Entry} (h : lastOf u q = some e') :
    weigh p (addToLast u x q) = weigh p q + if p u e'.fundDesc then x else 0 := by
  induction q with
  | nil => cases h
  | cons e q ih =>
    by_cases hlast : e.userId = u ∧ ∀ a ∈ q, a.userId ≠ u
    · have hnil : q.filter (·.userId = u) = [] :=
        List.filter_eq_nil_iff.mpr fun a ha => by simpa using hlast.2 a ha
      rw [lastOf, List.filter_cons_of_pos (by simpa using hlast.1), hnil] at h
      obtain rfl : e = e' := by simpa using h
      rw [addToLast, if_pos hlast, weigh_cons, weigh_cons, ← hlast.1]
      simp only [weight]
      split_ifs <;> omega
    · rw [addToLast, if_neg hlast, weigh_cons, weigh_cons, ih, Nat.add_assoc]
      by_cases hu : e.userId = u
      · have hne : q.filter (·.userId = u) ≠ [] := fun hnil => hlast ⟨hu, fun a ha => by
          simpa using List.filter_eq_nil_iff.mp hnil a ha⟩
        rw [lastOf, List.filter_cons_of_pos (by simpa using hu),
          List.getLast?_cons_of_ne_nil hne] at h
        exact h
      · rwa [lastOf, List.filter_cons_of_neg (by simpa using hu)] at h

/-- An amount that enters a queue is weighed under its own description, merged or not. -/
theorem weigh_enqueue : weigh p (enqueue q e) = weigh p q + weight p e := by
  unfold enqueue
  by_cases h0 : e.balance = 0
  · simp [h0, weight]
  rw [if_neg h0]
  by_cases hm : e.fundType.allowCoalesce ∧ (lastOf e.userId q).map fundDesc = some e.fundDesc
  · rw [if_pos hm]
    obtain ⟨a, ha, hd⟩ := Option.map_eq_some_iff.mp hm.2
    rw [weigh_addToLast ha, hd]
    rfl
  · rw [if_neg hm]
    simp [weigh]

end Entry

namespace FundStore

variable {intact : FundType → Prop} {s s' s'' : FundStore} {lay lay' : Layout} {id x u : ℕ}
  {d : FundDescription} {t : FundType} {p : ℕ → FundDescription → Bool}

/-! ### Holdings -/

/-- The balance of the items that `p` selects by their user and description. -/
def holding (s : FundStore) (p : ℕ → FundDescription → Bool) : ℕ :=
  ∑ id ∈ Finset.Icc 1 s.fundMaxId, (s.entry id).weight p

/-- The holdings are those of the queues. -/
theorem Linked.holding_eq (h : Linked intact s lay) (p : ℕ → FundDescription → Bool) :
    s.holding p = ∑ t, Entry.weigh p (lay.queue s t) := by
  have hqueue : ∀ t, Entry.weigh p (lay.queue s t) =
      ∑ id ∈ (lay.byType t).toFinset, (s.entry id).weight p := by
    intro t
    rw [List.sum_toFinset _ (h.types.nodup t), Entry.weigh, Layout.queue, List.map_map]
    rfl
  rw [Finset.sum_congr rfl fun t _ => hqueue t, ← Finset.sum_biUnion]
  · symm
    refine Finset.sum_subset (fun id hid => ?_) fun id _ hid => ?_
    · obtain ⟨t, -, hid⟩ := Finset.mem_biUnion.mp hid
      have hlive := h.live (List.mem_toFinset.mp hid)
      have hne := h.ne_zero hlive
      exact Finset.mem_Icc.mpr ⟨by omega, h.le_max id hlive⟩
    · have hnot : ¬ s.Live id := fun hlive => hid (Finset.mem_biUnion.mpr
        ⟨_, Finset.mem_univ _, List.mem_toFinset.mpr (h.mem_own hlive)⟩)
      have hzero : (s.entry id).balance = 0 := by
        unfold Live at hnot
        exact Nat.eq_zero_of_not_pos hnot
      simp [Entry.weight, hzero]
  · intro t _ t' _ hne
    refine Finset.disjoint_left.mpr fun id hid hid' => hne ?_
    rw [← h.fundType_eq (List.mem_toFinset.mp hid), h.fundType_eq (List.mem_toFinset.mp hid')]

/-- In a queue of one type, selecting a type selects all or nothing. -/
theorem Linked.weigh_queue (h : Linked intact s lay) (b : ℕ → Bool) (t t' : FundType) :
    Entry.weigh (fun v d => b v && d.fundType = t) (lay.queue s t') =
      if t' = t then Entry.total b (lay.queue s t) else 0 := by
  have htype : ∀ e ∈ lay.queue s t', e.fundDesc.fundType = t' := by
    intro e he
    obtain ⟨id, hid, rfl⟩ := List.mem_map.mp he
    exact h.fundType_eq hid
  by_cases ht : t' = t
  · rw [if_pos ht, ← ht]
    revert htype
    induction lay.queue s t' with
    | nil => exact fun _ => rfl
    | cons e q ih =>
      intro htype
      rw [Entry.weigh_cons, Entry.total_cons, ih fun e' he' => htype e' (by simp [he'])]
      simp [Entry.weight, htype e]
  · rw [if_neg ht]
    refine List.sum_eq_zero fun n hn => ?_
    obtain ⟨e, he, rfl⟩ := List.mem_map.mp hn
    simp [Entry.weight, htype e he, ht]

/-- The cached total of a type is a holding. -/
theorem Linked.typeTotal_eq_holding (h : Linked intact s lay) (t : FundType) :
    s.typeTotal t = s.holding fun _ d => d.fundType = t := by
  have hsum := h.holding_eq fun _ d => true && d.fundType = t
  rw [Finset.sum_congr rfl fun t' _ => h.weigh_queue (fun _ => true) t t'] at hsum
  simp only [Bool.true_and, Finset.sum_ite_eq', Finset.mem_univ, if_true] at hsum
  rw [hsum, h.typeTotal_eq_total]

/-- The cached total of a user and type is a holding. -/
theorem Linked.userTotal_eq_holding (h : Linked intact s lay) (hco : Coherent s lay) (u : ℕ)
    (t : FundType) : s.userTotal u t = s.holding fun v d => v = u && d.fundType = t := by
  rw [h.holding_eq, Finset.sum_congr rfl fun t' _ => h.weigh_queue (fun v => v = u) t t']
  simp only [Finset.sum_ite_eq', Finset.mem_univ, if_true]
  exact h.userTotal_eq_total hco u t

/-- Holdings from what happens to each queue. -/
theorem Linked.holding_of_queues (h : Linked intact s lay) (h' : Linked intact s' lay')
    (src dst : FundType) (out into : ℕ)
    (hq : ∀ t, Entry.weigh p (lay'.queue s' t) + (if t = src then out else 0) =
      Entry.weigh p (lay.queue s t) + if t = dst then into else 0) :
    s'.holding p + out = s.holding p + into := by
  have hsum := Finset.sum_congr rfl fun t (_ : t ∈ Finset.univ) => hq t
  rw [Finset.sum_add_distrib, Finset.sum_add_distrib] at hsum
  simp only [Finset.sum_ite_eq', Finset.mem_univ, if_true] at hsum
  rw [h.holding_eq, h'.holding_eq, hsum]

/-! ### What the operations do to holdings -/

theorem Increased.holding (hi : Increased intact s lay u d x s' lay') (h : Linked intact s lay)
    (hco : Coherent s lay) (p : ℕ → FundDescription → Bool) :
    s'.holding p = s.holding p + if p u d then x else 0 := by
  refine h.holding_of_queues hi.linked d.fundType d.fundType 0 _ fun t => ?_
  by_cases ht : t = d.fundType
  · rw [ht, hi.queue hco, Entry.weigh_enqueue]
    simp [Entry.weight]
  · have hqueue : lay'.queue s' t = lay.queue s t := by
      unfold Layout.queue
      rw [hi.byType t ht]
      refine List.map_congr_left fun a ha => hi.entry a (h.live ha) fun hkey => ht ?_
      rw [← h.fundType_eq ha]
      exact congrArg Prod.snd hkey
    rw [hqueue]
    simp [ht]

/-- The list of a type that loses an item or a part of it. -/
theorem weigh_map_of_taken {ids ids' : List ℕ} (hnd : ids.Nodup) (hid : id ∈ ids)
    (hids : ids' = if x = (s.entry id).balance then ids.erase id else ids)
    (hother : ∀ a ∈ ids, a ≠ id → s'.entry a = s.entry a)
    (hpart : x < (s.entry id).balance →
      s'.entry id = { s.entry id with balance := (s.entry id).balance - x })
    (hle : x ≤ (s.entry id).balance) :
    Entry.weigh p (ids'.map s'.entry) +
      (if p (s.entry id).userId (s.entry id).fundDesc then x else 0) =
        Entry.weigh p (ids.map s.entry) := by
  have hrest : ((ids.erase id).map fun a => (s'.entry a).weight p).sum =
      ((ids.erase id).map fun a => (s.entry a).weight p).sum := by
    refine congrArg List.sum (List.map_congr_left fun a ha => ?_)
    rw [hother a (List.mem_of_mem_erase ha) ((hnd.mem_erase_iff.mp ha).1)]
  have hsplit := List.sum_map_erase (fun a => (s.entry a).weight p) hid
  have hold : Entry.weigh p (ids.map s.entry) = (ids.map fun a => (s.entry a).weight p).sum := by
    rw [Entry.weigh, List.map_map]
    rfl
  rw [hold, ← hsplit, hids]
  by_cases hx : x = (s.entry id).balance
  · rw [if_pos hx, Entry.weigh, List.map_map]
    change ((ids.erase id).map fun a => (s'.entry a).weight p).sum + _ = _
    rw [hrest, hx, Nat.add_comm]
    rfl
  · have hsplit' := List.sum_map_erase (fun a => (s'.entry a).weight p) hid
    rw [if_neg hx, Entry.weigh, List.map_map]
    change (ids.map fun a => (s'.entry a).weight p).sum + _ = _
    rw [← hsplit', hrest, hpart (lt_of_le_of_ne hle hx)]
    simp only [Entry.weight]
    split_ifs <;> omega

/-- What is extracted from an item leaves the holdings that select it. -/
theorem Extracted.holding {s₁ : FundStore} {item₁ : FundItem}
    (he : Extracted intact s lay id x s₁ item₁) (h : Linked intact s lay) (hid : s.Live id)
    (p : ℕ → FundDescription → Bool) :
    (s₁.setFund id item₁).holding p +
      (if p (s.entry id).userId (s.entry id).fundDesc then x else 0) = s.holding p := by
  refine h.holding_of_queues he.linked (s.fundById id).fundType (s.fundById id).fundType _ 0
    fun t => ?_
  by_cases hsrc : t = (s.fundById id).fundType
  · rw [if_pos hsrc, if_pos hsrc, Nat.add_zero]
    exact weigh_map_of_taken (h.types.nodup t) (hsrc ▸ h.mem_own hid) (h.afterTake_byType t)
      (fun a ha hne => he.entry_setFund hne (h.live ha)) he.entry_part he.le
  · have hqueue := he.queue_of_ne h hsrc
    rw [FundStore.afterTake] at hqueue
    rw [if_neg hsrc, if_neg hsrc, hqueue]

theorem Converted.holding (hc : Converted intact s lay id d x s' lay') (h : Linked intact s lay)
    (hco : Coherent s lay) (hid : s.Live id) (hd : d.fundType ≠ (s.fundById id).fundType)
    (p : ℕ → FundDescription → Bool) :
    s'.holding p + (if p (s.entry id).userId (s.entry id).fundDesc then x else 0) =
      s.holding p + if p (s.entry id).userId d then x else 0 := by
  refine h.holding_of_queues hc.linked (s.fundById id).fundType d.fundType _ _ fun t => ?_
  by_cases hdst : t = d.fundType
  · rw [if_pos hdst, if_neg (hdst ▸ hd), hdst, hc.queue hco hd.symm, Entry.weigh_enqueue]
    rfl
  by_cases hsrc : t = (s.fundById id).fundType
  · rw [if_pos hsrc, if_neg hdst, Nat.add_zero]
    refine weigh_map_of_taken (h.types.nodup t) (hsrc ▸ h.mem_own hid) (hc.byType t hdst)
      (fun a ha hne => hc.entry a hne (h.live ha) ?_) (fun hlt => hc.part hd.symm hlt) hc.le
    rw [h.fundType_eq ha]
    exact hdst
  · rw [if_neg hsrc, if_neg hdst, hc.queue_of_ne h hdst hsrc]

/-! ### Changes of description -/

/-- A part of the funds of a user that has changed its description. -/
structure Relabelling where
  userId : ℕ
  old : FundDescription
  new : FundDescription
  amount : ℕ

/-- The store after some changes of description, all of which `R` allows. -/
def Relabelled (R : ℕ → FundDescription → FundDescription → Prop) (s s' : FundStore) : Prop :=
  ∃ changes : List Relabelling, (∀ c ∈ changes, R c.userId c.old c.new) ∧
    ∀ p, s'.holding p + (changes.map fun c => if p c.userId c.old then c.amount else 0).sum =
      s.holding p + (changes.map fun c => if p c.userId c.new then c.amount else 0).sum

section Relabelled

variable {R R' : ℕ → FundDescription → FundDescription → Prop}

theorem Relabelled.refl (s : FundStore) : Relabelled R s s := ⟨[], by simp, fun _ => rfl⟩

theorem Relabelled.trans (h : Relabelled R s s') (h' : Relabelled R s' s'') :
    Relabelled R s s'' := by
  obtain ⟨changes, hall, hp⟩ := h
  obtain ⟨changes', hall', hp'⟩ := h'
  refine ⟨changes ++ changes', fun c hc => ?_, fun p => ?_⟩
  · exact (List.mem_append.mp hc).elim (hall c) (hall' c)
  · have h₁ := hp p
    have h₂ := hp' p
    simp only [List.map_append, List.sum_append]
    omega

theorem Relabelled.mono (h : Relabelled R s s') (hle : ∀ u d d', R u d d' → R' u d d') :
    Relabelled R' s s' := by
  obtain ⟨changes, hall, hp⟩ := h
  exact ⟨changes, fun c hc => hle _ _ _ (hall c hc), hp⟩

/-- What no change brings in does not grow. -/
theorem Relabelled.holding_le (h : Relabelled R s s')
    (hp : ∀ u d d', R u d d' → p u d' = true → p u d = true) : s'.holding p ≤ s.holding p := by
  obtain ⟨changes, hall, hsum⟩ := h
  have hle : (changes.map fun c => if p c.userId c.new then c.amount else 0).sum ≤
      (changes.map fun c => if p c.userId c.old then c.amount else 0).sum := by
    refine List.sum_le_sum fun c hc => ?_
    have := hp _ _ _ (hall c hc)
    split_ifs <;> simp_all
  have := hsum p
  omega

/-- What no change takes out does not shrink. -/
theorem Relabelled.le_holding (h : Relabelled R s s')
    (hp : ∀ u d d', R u d d' → p u d = true → p u d' = true) : s.holding p ≤ s'.holding p := by
  obtain ⟨changes, hall, hsum⟩ := h
  have hle : (changes.map fun c => if p c.userId c.old then c.amount else 0).sum ≤
      (changes.map fun c => if p c.userId c.new then c.amount else 0).sum := by
    refine List.sum_le_sum fun c hc => ?_
    have := hp _ _ _ (hall c hc)
    split_ifs <;> simp_all
  have := hsum p
  omega

/-- **What no change affects is conserved.** -/
theorem Relabelled.holding_eq (h : Relabelled R s s')
    (hp : ∀ u d d', R u d d' → p u d' = p u d) : s'.holding p = s.holding p :=
  (h.holding_le fun u d d' hR h' => (hp u d d' hR).symm.trans h').antisymm
    (h.le_holding fun u d d' hR h' => (hp u d d' hR).trans h')

/-- Changes of users whose funds of the type that changes stay have moved nothing. -/
theorem Relabelled.restrict (h : Relabelled R s s') {users : ℕ → Prop}
    (hR : ∀ u d d', R u d d' → d.fundType = t ∧ d'.fundType ≠ t)
    (hkept : ∀ u, ¬ users u → (s'.holding fun v d => v = u && d.fundType = t) =
      s.holding fun v d => v = u && d.fundType = t) :
    Relabelled (fun u d d' => users u ∧ R u d d') s s' := by
  classical
  obtain ⟨changes, hall, hsum⟩ := h
  have hzero : ∀ c ∈ changes, ¬ users c.userId → c.amount = 0 := by
    intro c hc hu
    have hold := hsum fun v d => v = c.userId && d.fundType = t
    have hnew : (changes.map fun c' => if (c'.userId = c.userId && c'.new.fundType = t) = true
        then c'.amount else 0).sum = 0 := by
      refine List.sum_eq_zero fun n hn => ?_
      obtain ⟨c', hc', rfl⟩ := List.mem_map.mp hn
      simp [(hR _ _ _ (hall c' hc')).2]
    rw [hkept _ hu, hnew, Nat.add_zero, Nat.add_eq_left] at hold
    have := List.sum_eq_zero_iff.mp hold _ (List.mem_map_of_mem hc)
    simpa [(hR _ _ _ (hall c hc)).1] using this
  have hfilter : ∀ b : Relabelling → Bool,
      ((changes.filter fun c => users c.userId).map fun c => if b c then c.amount else 0).sum =
        (changes.map fun c => if b c then c.amount else 0).sum := by
    intro b
    revert hzero
    clear hall hsum
    induction changes with
    | nil => exact fun _ => rfl
    | cons c changes ih =>
      intro hzero
      have ih := ih fun c' hc' => hzero c' (List.mem_cons_of_mem c hc')
      by_cases hu : users c.userId
      · rw [List.filter_cons_of_pos (by simpa using hu), List.map_cons, List.sum_cons, ih,
          List.map_cons, List.sum_cons]
      · rw [List.filter_cons_of_neg (by simpa using hu), ih, List.map_cons, List.sum_cons,
          hzero c List.mem_cons_self hu]
        simp
  refine ⟨changes.filter fun c => users c.userId, fun c hc => ?_, fun p => ?_⟩
  · rw [List.mem_filter, decide_eq_true_eq] at hc
    exact ⟨hc.2, hall c hc.1⟩
  · rw [hfilter fun c => p c.userId c.old, hfilter fun c => p c.userId c.new]
    exact hsum p

theorem Converted.relabelled (hc : Converted intact s lay id d x s' lay') (h : Linked intact s lay)
    (hco : Coherent s lay) (hid : s.Live id) (hd : d.fundType ≠ (s.fundById id).fundType)
    (hR : R (s.fundById id).userId (s.fundById id).fundDesc d) : Relabelled R s s' := by
  refine ⟨[⟨(s.fundById id).userId, (s.fundById id).fundDesc, d, x⟩], fun c hm => ?_, fun p => ?_⟩
  · rw [List.mem_singleton.mp hm]
    exact hR
  · simpa [FundStore.entry] using hc.holding h hco hid hd p

end Relabelled

end FundStore

/-! ### Traversals -/

/-- A traversal changes descriptions as its filter says. -/
theorem Traversal.run_relabelled {σ : Type} {T : Traversal σ} {intact : FundType → Prop}
    (src : Source) {direction : SwapDirection} {overrun : Panic}
    {R : ℕ → FundDescription → FundDescription → Prop}
    (hnext : T.nextId = src.link direction) (hi : intact src.fundType)
    (hT : ∀ s closure item d closure', item.fundType = src.fundType →
      src.sel item.userId = true → T.filterTransform s closure item = .ok (some d, closure') →
      d.fundType ≠ src.fundType ∧ R item.userId item.fundDesc d)
    (hdry : T.dryRun = false) (budget : ℕ) {c : Cursor σ}
    (hc : ∃ lay, FundStore.Linked intact c.store lay ∧ FundStore.Coherent c.store lay)
    (hid : c.id = 0 ∨ src.Has c.store c.id) :
    Spec (T.run overrun budget c) (fun c' => FundStore.Relabelled R c.store c'.store)
      (fun _ => True) := by
  refine (run_spec (J := fun s _ _ => FundStore.Relabelled R c.store s) hnext hi ?_ trivial budget
    ⟨hc, hid, .refl _⟩).imp fun c' hc' => hc'.2.2
  intro s lay closure max id hl hco ⟨hlive, ht, hsel⟩ _ hrel
  refine Spec.of_forall_ok fun r hr => ?_
  obtain ⟨transformed, closure'⟩ := r
  cases transformed with
  | none => exact hrel
  | some d =>
    obtain ⟨hd, hR⟩ := hT s closure _ d closure' ht hsel hr
    refine ⟨hd, ?_⟩
    simp only [hdry, Bool.false_eq_true, if_false]
    exact fun s' lay' hcv => hrel.trans (hcv.relabelled hl hco hlive (by rw [ht]; exact hd) hR)

namespace FundStore

variable {intact : FundType → Prop} {s : FundStore} {lay : Layout} {t : FundType}

/-- The funds of type `src` of some users get the descriptions that `g` says. -/
def Via (users : ℕ → Prop) (src : FundType) (g : FundDescription → Option FundDescription) (u : ℕ)
    (d d' : FundDescription) : Prop :=
  users u ∧ d.fundType = src ∧ g d = some d'

theorem Linked.splitConvertMaxByType_relabelled (h : Linked intact s lay) (hco : Coherent s lay)
    (hi : intact t) (direction : SwapDirection) (optMaxAmount : Option ℕ)
    {g : FundDescription → Option FundDescription} (interrupt : ℕ → Bool)
    (hg : ∀ d d', d.fundType = t → g d = some d' → d'.fundType ≠ t) :
    Spec (s.splitConvertMaxByType () optMaxAmount t direction
      (pureFilter fun item => g item.fundDesc) interrupt false)
      (fun r => Relabelled (Via (fun _ => True) t g) s r.1)
      (fun _ => True) := by
  refine Spec.bind (Traversal.run_relabelled (R := Via (fun _ => True) t g) (.type t) rfl hi
    (fun _ _ item d _ ht _ hr => ?_) rfl maxAffectedUsers ⟨lay, h, hco⟩
    (h.start_live (.type t) direction)) fun c hc => hc
  simp only [pureFilter, Except.ok.injEq, Prod.mk.injEq] at hr
  exact ⟨hg item.fundDesc d ht hr.1, trivial, ht, hr.1⟩

theorem Linked.splitConvertMaxByUser_relabelled (h : Linked intact s lay) (hco : Coherent s lay)
    (hi : intact t) (direction : SwapDirection) (optMaxAmount : Option ℕ) (u : ℕ)
    {g : FundDescription → Option FundDescription} (interrupt : ℕ → Bool) (fuel : ℕ)
    (hg : ∀ d d', d.fundType = t → g d = some d' → d'.fundType ≠ t) :
    Spec (s.splitConvertMaxByUser optMaxAmount u t direction g interrupt fuel)
      (fun r => Relabelled (Via (fun _ => True) t g) s r.1)
      (fun _ => True) := by
  refine Spec.bind (Traversal.run_relabelled (R := Via (fun _ => True) t g) (.user u t) rfl hi
    (fun _ _ item d _ ht _ hr => ?_) rfl fuel ⟨lay, h, hco⟩
    (h.start_live (.user u t) direction)) fun c hc => hc
  simp only [pureFilter, Except.ok.injEq, Prod.mk.injEq] at hr
  exact ⟨hg item.fundDesc d ht hr.1, trivial, ht, hr.1⟩

end FundStore

end Delegation
