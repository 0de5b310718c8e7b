import Delegation.Fund.Drain

/-!
# Rules for the traversals of the fund module

`Traversal.run_spec` is the invariant rule for a traversal with any filter, which may read the
storage, keep state and panic: what every conversion of a live item preserves holds when the loop
ends. For filters that decide on entries, `Linked.splitConvertMaxByType` and
`Linked.splitConvertMaxByUser` say what the source functions return in terms of `drain`, and
`Drains.shift` what that means for the cached totals.
-/

namespace Delegation

open Outcome Loop DoublyLinked FundStore

variable {intact : FundType → Prop} {s : FundStore} {lay : Layout}

/-! ### The invariant rule -/

/-- The id is that of a live item of the source. -/
def Source.Has (src : Source) (s : FundStore) (id : ℕ) : Prop :=
  s.Live id ∧ (s.fundById id).fundType = src.fundType ∧ src.sel (s.fundById id).userId = true

/-- A traversal goes on inside its list: the next id is null or another item of the source. -/
theorem FundStore.Linked.link_live (h : Linked intact s lay) (src : Source)
    (direction : SwapDirection) {id : ℕ} (hi : intact src.fundType) (hid : src.Has s id) :
    src.link direction (s.fundById id) = 0 ∨
      src.link direction (s.fundById id) ≠ id ∧
      src.Has s (src.link direction (s.fundById id)) := by
  -- one argument for both families
  have main : ∀ {L : Links ℕ} {l : List ℕ}, L.Rep l → l.Nodup → id ∈ l →
      (∀ a ∈ l, src.Has s a) →
      src.link direction (s.fundById id) = direction.next L id →
      src.link direction (s.fundById id) = 0 ∨
        src.link direction (s.fundById id) ≠ id ∧
        src.Has s (src.link direction (s.fundById id)) := by
    intro L l hrep hnd hmem hall hlink
    obtain ⟨K, R, hw⟩ := List.append_of_mem
      (direction.mem_walk.mpr hmem)
    rw [hlink, rep_link_walk hrep hw]
    cases R with
    | nil => exact .inl rfl
    | cons b R =>
      have hnd' := direction.nodup_walk hnd
      rw [hw] at hnd'
      have hne : b ≠ id := fun e => (List.nodup_cons.mp (List.nodup_append.mp hnd').2.1).1 (by
        rw [← e]
        exact List.mem_cons_self)
      have hb : b ∈ l := direction.mem_walk.mp (by rw [hw]; simp)
      exact .inr ⟨hne, hall b hb⟩
  have ⟨hlive, ht, hsel⟩ := hid
  cases src with
  | type t =>
    refine main (h.types.rep t hi) (h.types.nodup t) ((h.mem_byType t id).mpr ⟨hlive, ht⟩)
      (fun a ha => ?_) ?_
    · obtain ⟨h1, h2⟩ := (h.mem_byType t a).mp ha
      exact ⟨h1, h2, rfl⟩
    · cases direction <;> rfl
  | user u t =>
    refine main (h.users.rep (s.fundById id).userKey trivial) (h.users.nodup _)
      (h.mem_ownUser hlive) (fun a ha => ?_) ?_
    · obtain ⟨h1, h2⟩ := (h.mem_byUser _ a).mp ha
      refine ⟨h1, (congrArg Prod.snd h2).trans ht, ?_⟩
      rw [show (s.fundById a).userId = (s.fundById id).userId from congrArg Prod.fst h2]
      exact hsel
    · cases direction <;> rfl

/-- A traversal starts inside its list. -/
theorem FundStore.Linked.start_live (h : Linked intact s lay)
    (src : Source) (direction : SwapDirection) : src.start direction s = 0 ∨
      src.Has s (src.start direction s) := by
  cases src with
  | type t =>
    have hmem : ∀ a ∈ lay.byType t, (Source.type t).Has s a := fun a ha => by
      obtain ⟨h1, h2⟩ := (h.mem_byType t a).mp ha
      exact ⟨h1, h2, rfl⟩
    cases direction with
    | forwards => exact (h.types.first_mem t).imp_right (hmem _)
    | backwards => exact (h.types.last_mem t).imp_right (hmem _)
  | user u t =>
    have hmem : ∀ a ∈ lay.byUser (u, t), (Source.user u t).Has s a := fun a ha => by
      obtain ⟨h1, h2⟩ := (h.mem_byUser (u, t) a).mp ha
      exact ⟨h1, congrArg Prod.snd h2, decide_eq_true (congrArg Prod.fst h2)⟩
    cases direction with
    | forwards => exact (h.users.first_mem (u, t)).imp_right (hmem _)
    | backwards => exact (h.users.last_mem (u, t)).imp_right (hmem _)

/-- So does one that goes on from a stored id, if that is the id of an item of the list. -/
theorem FundStore.Linked.checkpoint_live (h : Linked intact s lay) {t sourceType : FundType}
    {currentId : ℕ}
    (hid : currentId = 0 ∧ sourceType = t ∨ (Source.type t).Has s currentId)
    (direction : SwapDirection) :
    (if currentId = 0 then s.firstIdOfType sourceType direction else currentId) = 0 ∨
      (Source.type t).Has s
        (if currentId = 0 then s.firstIdOfType sourceType direction else currentId) := by
  split_ifs with h0
  · obtain ⟨-, rfl⟩ : currentId = 0 ∧ sourceType = t :=
      hid.resolve_right fun hhas => h.ne_zero hhas.1 h0
    exact h.start_live (.type sourceType) direction
  · exact .inr (hid.resolve_left fun h => h0 h.1)

namespace Traversal

variable {σ : Type} {T : Traversal σ} {src : Source} {direction : SwapDirection}

/-- A traversal that stops after its first visit. -/
theorem run_of_visit {c c' : Cursor σ} (hvisit : T.visit c = .ok c') (hstop : T.guard 1 c' = false)
    (overrun : Panic) (budget : ℕ) :
    T.run overrun budget c =
      if T.guard 0 c then if budget = 0 then .error overrun else .ok c' else .ok c := by
  unfold Traversal.run
  split_ifs with hguard hbudget
  · subst hbudget
    exact whileLoop_zero_of_guard hguard
  · obtain ⟨n, rfl⟩ := Nat.exists_eq_succ_of_ne_zero hbudget
    rw [whileLoop_succ_of_guard hguard, hvisit, ok_bind]
    exact whileLoop_of_not_guard hstop n
  · exact whileLoop_of_not_guard (by simpa using hguard) budget

/-- What holds between the visits of a traversal: the store is linked, the traversal stands at
its end or at an item of its source, and `J` holds of the storage, the closure and the rest of
the maximum. -/
def Stands (intact : FundType → Prop) (src : Source)
    (J : FundStore → σ → Option ℕ → Prop) (c : Cursor σ) : Prop :=
  (∃ lay, Linked intact c.store lay ∧ Coherent c.store lay) ∧
    (c.id = 0 ∨ src.Has c.store c.id) ∧ J c.store c.closure c.optMaxAmount

/-- What a filter has to guarantee for `J` on a live item `id`. -/
def FilterSpec (T : Traversal σ) (intact : FundType → Prop) (src : Source)
    (J : FundStore → σ → Option ℕ → Prop) (E : Panic → Prop) : Prop :=
  ∀ s lay closure max id, Linked intact s lay → Coherent s lay → src.Has s id →
    max ≠ some 0 → J s closure max →
    Spec (T.filterTransform s closure (s.fundById id))
      (fun r =>
        match r.1 with
        | none => J s r.2 max
        | some d => d.fundType ≠ src.fundType ∧
            if T.dryRun then
              J s r.2 (max.map (· - takenBalance max (s.fundById id).balance))
            else ∀ s' lay', Converted intact s lay id d
              (takenBalance max (s.fundById id).balance) s' lay' →
                J s' r.2 (max.map (· - takenBalance max (s.fundById id).balance))) E

/-- One visit, without regard to the order of the lists by user: the item is skipped or converted,
and the traversal goes on inside its source. -/
theorem visit_linked {F : Option FundDescription × σ → Prop} {E : Panic → Prop}
    (hnext : T.nextId = src.link direction) (hi : intact src.fundType) {k : ℕ} {c : Cursor σ}
    (hl : Linked intact c.store lay) (hid : c.id = 0 ∨ src.Has c.store c.id)
    (hg : T.guard k c = true)
    (hT : Spec (T.filterTransform c.store c.closure (c.store.fundById c.id)) F E)
    (hd : ∀ d closure, F (some d, closure) → d.fundType ≠ src.fundType) :
    Spec (T.visit c)
      (fun c' => (c'.id = 0 ∨ src.Has c'.store c'.id) ∧ ∃ r, F r ∧ c'.closure = r.2 ∧
        match r.1 with
        | none => c'.store = c.store ∧ c'.optMaxAmount = c.optMaxAmount
        | some d => c'.optMaxAmount = c.optMaxAmount.map
              (· - takenBalance c.optMaxAmount (c.store.fundById c.id).balance) ∧
            if T.dryRun then c'.store = c.store
            else ∃ lay', Converted intact c.store lay c.id d
              (takenBalance c.optMaxAmount (c.store.fundById c.id).balance) c'.store lay') E := by
  simp only [guard, Bool.and_eq_true, decide_eq_true_eq] at hg
  have hhas : src.Has c.store c.id := hid.resolve_left (by omega)
  have hlive := hhas.1
  have ht := hhas.2.1
  have hlink := hl.link_live src direction hi hhas
  unfold visit
  refine Spec.bind hT ?_
  rintro ⟨transformed, closure⟩ hr
  cases transformed with
  | none =>
    refine ⟨?_, _, hr, rfl, setFund_self hlive, rfl⟩
    simp only [setFund_self hlive, hnext]
    exact hlink.imp_right And.right
  | some d =>
    have hd := hd d closure hr
    rcases hdry : T.dryRun with _ | _
    · simp only [Bool.false_eq_true, if_false]
      obtain ⟨s₂, item₁, hconv, lay', hcv⟩ := hl.convert hlive hg.2
        (.inl (by rw [ht]; exact hd.symm))
      rw [hconv, ok_bind]
      refine ⟨?_, _, hr, rfl, rfl, lay', hcv⟩
      simp only [hnext]
      rcases hlink with h0 | ⟨hne, hl', ht', hsel'⟩
      · exact .inl h0
      · have he := hcv.entry _ hne hl' (by rw [ht']; exact hd.symm)
        refine .inr ⟨?_, (fundType_eq_of_entry he).trans ht', ?_⟩
        · unfold Live
          rw [balance_eq_of_entry he]
          exact hl'
        · rw [← hsel']
          exact congrArg (fun e => src.sel e.userId) he
    · simp only [if_true]
      refine ⟨?_, _, hr, rfl, decreaseMaxAmount_eq _ _, setFund_self hlive⟩
      simp only [setFund_self hlive, hnext]
      exact hlink.imp_right And.right

/-- One visit keeps the invariant. -/
theorem visit_spec {J : FundStore → σ → Option ℕ → Prop} {E : Panic → Prop}
    (hnext : T.nextId = src.link direction) (hi : intact src.fundType)
    (hT : T.FilterSpec intact src J E) {k : ℕ} {c : Cursor σ} (hc : Stands intact src J c)
    (hg : T.guard k c = true) : Spec (T.visit c) (Stands intact src J) E := by
  obtain ⟨⟨lay, hl, hco⟩, hid, hJ⟩ := hc
  have hg' := hg
  simp only [guard, Bool.and_eq_true, decide_eq_true_eq] at hg'
  have hhas : src.Has c.store c.id := hid.resolve_left (by omega)
  refine (visit_linked hnext hi hl hid hg (hT _ lay _ _ _ hl hco hhas hg'.2 hJ)
    fun _ _ h => h.1).imp ?_
  rintro c' ⟨hid', ⟨transformed, closure⟩, hr, hclosure, hcase⟩
  cases transformed with
  | none =>
    obtain ⟨hstore, hmax⟩ := hcase
    unfold Stands
    rw [hstore, hclosure, hmax]
    exact ⟨⟨lay, hl, hco⟩, hstore ▸ hid', hr⟩
  | some d =>
    obtain ⟨hmax, hcase⟩ := hcase
    obtain ⟨-, hr⟩ := hr
    unfold Stands
    rw [hclosure, hmax]
    split_ifs at hcase hr
    · rw [hcase]
      exact ⟨⟨lay, hl, hco⟩, hcase ▸ hid', hr⟩
    · obtain ⟨lay', hcv⟩ := hcase
      exact ⟨⟨lay', hcv.linked, hcv.coherent hco⟩, hid', hr _ _ hcv⟩

/-- **Invariant rule for traversals.** -/
theorem run_spec {J : FundStore → σ → Option ℕ → Prop} {E : Panic → Prop} {overrun : Panic}
    (hnext : T.nextId = src.link direction) (hi : intact src.fundType)
    (hT : T.FilterSpec intact src J E) (hover : E overrun) (budget : ℕ) {c : Cursor σ}
    (hc : Stands intact src J c) :
    Spec (T.run overrun budget c) (Stands intact src J) E :=
  (whileLoop_spec (J := fun _ => Stands intact src J) hover
    (fun _ _ hc hg => visit_spec hnext hi hT hc hg) budget 0 c hc).imp
      fun _ ⟨_, h, _⟩ => h

/-- A traversal keeps the store linked and the items that it leaves as they are. -/
theorem run_evolves (src : Source) {overrun : Panic} (hnext : T.nextId = src.link direction)
    (hi : intact src.fundType)
    (hT : ∀ s closure item d closure', item.fundType = src.fundType →
      T.filterTransform s closure item = .ok (some d, closure') → d.fundType ≠ src.fundType)
    (hdry : T.dryRun = false) (budget : ℕ) {c : Cursor σ}
    (hc : ∃ lay, Linked intact c.store lay ∧ Coherent c.store lay)
    (hid : c.id = 0 ∨ src.Has c.store c.id) :
    Spec (T.run overrun budget c)
      (fun c' => (∃ lay, Linked intact c'.store lay ∧ Coherent c'.store lay) ∧
        Evolves c.store c'.store) (fun _ => True) := by
  refine (run_spec (J := fun s _ _ => Evolves c.store s) hnext hi ?_ trivial budget
    ⟨hc, hid, .refl _⟩).imp fun c' hc' => ⟨hc'.1, hc'.2.2⟩
  intro s lay closure max id hl _ ⟨_, ht, _⟩ _ hev
  refine Spec.of_forall_ok fun r hr => ?_
  obtain ⟨transformed, closure'⟩ := r
  cases transformed with
  | none => exact hev
  | some d =>
    refine ⟨hT s closure _ d closure' ht hr, ?_⟩
    simp only [hdry, Bool.false_eq_true, if_false]
    exact fun s' lay' hcv => hev.trans (hl.evolves hcv.linked hcv.fundMaxId hcv.old)

end Traversal

/-! ### Totals of queues -/

namespace Entry

variable {p : ℕ → Bool} {e : Entry} {q q' : List Entry} {u x : ℕ}

/-- The balance that the users selected by `p` hold in a queue. -/
def total (p : ℕ → Bool) (q : List Entry) : ℕ := ((q.filter fun e => p e.userId).map balance).sum

@[simp]
theorem total_nil : total p [] = 0 := rfl

@[simp]
theorem total_cons : total p (e :: q) = (if p e.userId then e.balance else 0) + total p q := by
  unfold total
  rcases h : p e.userId with _ | _ <;> simp [h]

@[simp]
theorem total_append : total p (q ++ q') = total p q + total p q' := by
  simp [total]

theorem total_walk (direction : SwapDirection) : total p (direction.walk q) = total p q := by
  cases direction with
  | forwards => rfl
  | backwards => simp [total, SwapDirection.walk, List.filter_reverse, List.map_reverse]

theorem total_addToLast (h : ∃ e ∈ q, e.userId = u) :
    total p (addToLast u x q) = total p q + if p u then x else 0 := by
  induction q with
  | nil => simp at h
  | cons e q ih =>
    by_cases hlast : e.userId = u ∧ ∀ e' ∈ q, e'.userId ≠ u
    · rw [addToLast, if_pos hlast, total_cons, total_cons]
      simp only [hlast.1]
      split_ifs <;> omega
    · rw [addToLast, if_neg hlast, total_cons, total_cons, ih, Nat.add_assoc]
      by_contra hne
      simp only [not_exists, not_and] at hne
      obtain ⟨e', he', hu⟩ := h
      rcases List.mem_cons.mp he' with rfl | hm
      · exact hlast ⟨hu, fun e' he' => hne e' he'⟩
      · exact hne e' hm hu

/-- An amount that enters a queue is added to the total of its user. -/
theorem total_enqueue :
    total p (enqueue q e) = total p q + if p e.userId then e.balance else 0 := by
  unfold enqueue
  by_cases h0 : e.balance = 0
  · simp [h0]
  rw [if_neg h0]
  by_cases hm : e.fundType.allowCoalesce ∧ (lastOf e.userId q).map fundDesc = some e.fundDesc
  · rw [if_pos hm]
    obtain ⟨a, ha, -⟩ := Option.map_eq_some_iff.mp hm.2
    obtain ⟨h1, h2⟩ := List.mem_filter.mp (List.mem_of_getLast? ha)
    exact total_addToLast ⟨a, h1, by simpa using h2⟩
  · rw [if_neg hm, total_append, total_cons, total_nil, Nat.add_zero]

theorem total_foldl_enqueue (es q : List Entry) :
    total p (es.foldl enqueue q) = total p q + total p es := by
  induction es generalizing q with
  | nil => simp
  | cons e es ih =>
    rw [List.foldl_cons, ih, total_enqueue, total_cons]
    omega

/-- A queue of users that `p` selects. -/
theorem total_congr (h : ∀ e ∈ q, p e.userId = true) : total p q = total (fun _ => true) q := by
  unfold total
  rw [List.filter_eq_self.mpr h, List.filter_eq_self.mpr fun _ _ => rfl]

theorem total_eq_zero (h : ∀ e ∈ q, p e.userId = false) : total p q = 0 := by
  unfold total
  rw [List.filter_eq_nil_iff.mpr fun e he => by simp [h e he]]
  rfl

end Entry

theorem FundStore.takenBalance_le (max : Option ℕ) (b : ℕ) : takenBalance max b ≤ b := by
  cases max <;> simp [takenBalance]

section Drain

variable {sel : ℕ → Bool} {f : Entry → Option FundDescription} {interrupt : ℕ → Bool} {k : ℕ}
  {max : Option ℕ} {q : List Entry}

/-- A case analysis that follows the walk. -/
theorem drain_induct {P : ℕ → Option ℕ → List Entry → Drained → Prop}
    (nil : ∀ k max, P k max [] ⟨[], [], max, []⟩)
    (skip : ∀ k max e q, sel e.userId = false → P k max q (drain sel f interrupt k max q) →
      P k max (e :: q) { drain sel f interrupt k max q with
        kept := e :: (drain sel f interrupt k max q).kept })
    (stop : ∀ k max e q, sel e.userId = true → (interrupt k ∨ max = some 0) →
      P k max (e :: q) ⟨e :: q, [], max, []⟩)
    (reject : ∀ k max e q, sel e.userId = true → ¬ (interrupt k ∨ max = some 0) → f e = none →
      P (k + 1) max q (drain sel f interrupt (k + 1) max q) →
      P k max (e :: q) ((drain sel f interrupt (k + 1) max q).visit e [e] []))
    (accept : ∀ k max e q d, sel e.userId = true → ¬ (interrupt k ∨ max = some 0) → f e = some d →
      P (k + 1) (max.map (· - takenBalance max e.balance)) q
        (drain sel f interrupt (k + 1) (max.map (· - takenBalance max e.balance)) q) →
      P k max (e :: q)
        ((drain sel f interrupt (k + 1) (max.map (· - takenBalance max e.balance)) q).visit e
          (if takenBalance max e.balance = e.balance then []
          else [{ e with balance := e.balance - takenBalance max e.balance }])
          [⟨e.userId, d, takenBalance max e.balance⟩])) (k : ℕ) (max : Option ℕ) (q : List Entry) :
    P k max q (drain sel f interrupt k max q) := by
  induction q generalizing k max with
  | nil => exact nil k max
  | cons e q ih =>
    rcases hs : sel e.userId with _ | _
    · rw [drain_of_not_sel hs]
      exact skip k max e q hs (ih k max)
    · by_cases hstop : interrupt k = true ∨ max = some 0
      · rw [drain_of_stop hs hstop]
        exact stop k max e q hs hstop
      · cases hf : f e with
        | none =>
          rw [drain_of_none hs hstop hf]
          exact reject k max e q hs hstop hf (ih _ _)
        | some d =>
          rw [drain_of_some hs hstop hf]
          exact accept k max e q d hs hstop hf (ih _ _)

/-- A conversion neither creates nor loses balance of any user. -/
theorem drain_total (p : ℕ → Bool) : Entry.total p (drain sel f interrupt k max q).kept +
    Entry.total p (drain sel f interrupt k max q).extracted = Entry.total p q := by
  refine drain_induct (P := fun _ _ q r => Entry.total p r.kept + Entry.total p r.extracted =
    Entry.total p q) ?_ ?_ ?_ ?_ ?_ k max q
  · intros
    rfl
  · intro k max e q _ ih
    simp only [Entry.total_cons]
    omega
  · intros
    rfl
  · intro k max e q _ _ _ ih
    simp only [Drained.visit, Entry.total_append, Entry.total_cons, Entry.total_nil]
    omega
  · intro k max e q d _ _ _ ih
    have hle := takenBalance_le max e.balance
    simp only [Drained.visit, Entry.total_append, Entry.total_cons, Entry.total_nil]
    split_ifs with hw hp hp <;> simp_all <;> omega

/-- What is extracted belongs to selected users that were visited, under a description that the
filter gave. -/
theorem drain_extracted : ∀ e ∈ (drain sel f interrupt k max q).extracted,
    sel e.userId = true ∧ e.userId ∈ (drain sel f interrupt k max q).visitedUsers ∧
      ∃ e' ∈ q, f e' = some e.fundDesc := by
  refine drain_induct (P := fun _ _ q r => ∀ e ∈ r.extracted, sel e.userId = true ∧
    e.userId ∈ r.visitedUsers ∧ ∃ e' ∈ q, f e' = some e.fundDesc) ?_ ?_ ?_ ?_ ?_ k max q
  · intro k max e he
    simp at he
  · intro k max e q _ ih e' he'
    obtain ⟨h1, h2, a, ha, h3⟩ := ih e' he'
    exact ⟨h1, h2, a, List.mem_cons_of_mem e ha, h3⟩
  · intro k max e q _ _ e' he'
    simp at he'
  · intro k max e q _ _ _ ih e' he'
    simp only [Drained.visit, List.nil_append] at he'
    obtain ⟨h1, h2, a, ha, h3⟩ := ih e' he'
    exact ⟨h1, List.mem_cons_of_mem _ h2, a, List.mem_cons_of_mem e ha, h3⟩
  · intro k max e q d hs _ hf ih e' he'
    simp only [Drained.visit, List.singleton_append] at he'
    rcases List.mem_cons.mp he' with rfl | he'
    · exact ⟨hs, List.mem_cons_self, e, List.mem_cons_self, hf⟩
    · obtain ⟨h1, h2, a, ha, h3⟩ := ih e' he'
      exact ⟨h1, List.mem_cons_of_mem _ h2, a, List.mem_cons_of_mem e ha, h3⟩

/-- The maximum goes down by what was extracted. -/
theorem drain_optMaxAmount (sel : ℕ → Bool) (f : Entry → Option FundDescription)
    (interrupt : ℕ → Bool) (k : ℕ) (max : Option ℕ) (q : List Entry) :
    (drain sel f interrupt k max q).optMaxAmount.map
      (· + Entry.total (fun _ => true) (drain sel f interrupt k max q).extracted) = max := by
  refine drain_induct (P := fun _ max _ r =>
    r.optMaxAmount.map (· + Entry.total (fun _ => true) r.extracted) = max) ?_ ?_ ?_ ?_ ?_ k max q
  · intro k max
    simp
  · exact fun _ _ _ _ _ ih => ih
  · intro k max e q _ _
    simp
  · exact fun _ _ _ _ _ _ _ ih => ih
  · intro k max e q d _ _ _ ih
    generalize drain sel f interrupt (k + 1) (max.map (· - takenBalance max e.balance)) q = r at ih
    cases max with
    | none => simpa [Drained.visit] using ih
    | some M =>
      have hM : takenBalance (some M) e.balance ≤ M := min_le_left _ _
      simp only [Option.map_some, Option.map_eq_some_iff] at ih
      obtain ⟨m, hm, he⟩ := ih
      simp only [Drained.visit, hm, Option.map_some, List.singleton_append, Entry.total_cons]
      simp only [if_true]
      congr 1
      omega

theorem drain_zero : (drain sel f interrupt k (some 0) q).optMaxAmount = some 0 := by
  have h := drain_optMaxAmount sel f interrupt k (some 0) q
  obtain ⟨m, hm, h0⟩ := Option.map_eq_some_iff.mp h
  rw [hm]
  congr 1
  omega

/-- A filter that accepts everything, run without interruption, exhausts the maximum or takes all
that the selected users have. -/
theorem drain_complete (hf : ∀ e ∈ q, ∃ d, f e = some d) (hi : ∀ k, interrupt k = false) :
    (drain sel f interrupt k max q).optMaxAmount = some 0 ∨
      Entry.total sel (drain sel f interrupt k max q).kept = 0 := by
  revert hf
  refine drain_induct (P := fun _ _ q r => (∀ e ∈ q, ∃ d, f e = some d) →
    r.optMaxAmount = some 0 ∨ Entry.total sel r.kept = 0) ?_ ?_ ?_ ?_ ?_ k max q
  · exact fun _ _ _ => .inr rfl
  · intro k max e q hs ih hf
    refine (ih fun e' he' => hf e' (List.mem_cons_of_mem e he')).imp_right fun h => ?_
    rw [Entry.total_cons, h]
    simp [hs]
  · intro k max e q _ hstop _
    rcases hstop with h | h
    · simp [hi] at h
    · exact .inl h
  · intro k max e q _ _ hnone _ hf
    obtain ⟨d, hd⟩ := hf e List.mem_cons_self
    simp [hnone] at hd
  · intro k max e q d hs hstop _ ih hf
    rw [not_or] at hstop
    by_cases hw : takenBalance max e.balance = e.balance
    · refine (ih fun e' he' => hf e' (List.mem_cons_of_mem e he')).imp_right fun h => ?_
      simpa [Drained.visit, hw] using h
    · -- a partial extraction exhausts the maximum
      left
      cases max with
      | none => exact absurd rfl hw
      | some M =>
        have hM : M - takenBalance (some M) e.balance = 0 := by
          simp only [takenBalance] at hw ⊢
          omega
        simp only [Option.map_some, hM, Drained.visit]
        exact drain_zero

/-- The first accepted entry already moves something. -/
theorem drain_progress {e : Entry} {d : FundDescription} (hs : sel e.userId = true)
    (hf : f e = some d) (hi : interrupt k = false) (hmax : max ≠ some 0)
    (he : 0 < e.balance) :
    0 < Entry.total (fun _ => true) (drain sel f interrupt k max (e :: q)).extracted := by
  have hx : 0 < takenBalance max e.balance := by
    cases max with
    | none => exact he
    | some m =>
      have hm : m ≠ 0 := fun h0 => hmax (by rw [h0])
      simp only [takenBalance]
      omega
  rw [drain_of_some hs (by simp [hi, hmax]) hf]
  simp only [Drained.visit, List.singleton_append, Entry.total_cons, if_true]
  omega

/-- An interruption bounds the number of entries visited. -/
theorem drain_visitedUsers_length_le (sel : ℕ → Bool) (f : Entry → Option FundDescription)
    (max : Option ℕ) (q : List Entry) (j : ℕ) :
    interrupt (k + j) = true → (drain sel f interrupt k max q).visitedUsers.length ≤ j := by
  refine drain_induct (P := fun k _ _ r => ∀ j, interrupt (k + j) = true →
    r.visitedUsers.length ≤ j) ?_ ?_ ?_ ?_ ?_ k max q j
  · exact fun _ _ _ _ => Nat.zero_le _
  · exact fun _ _ _ _ _ ih => ih
  · exact fun _ _ _ _ _ _ _ _ => Nat.zero_le _
  · intro k max e q _ hstop _ ih j hj
    cases j with
    | zero => exact absurd (.inl hj) hstop
    | succ j =>
      have := ih j (by rw [← hj]; congr 1; omega)
      simpa [Drained.visit] using this
  · intro k max e q d _ hstop _ ih j hj
    cases j with
    | zero => exact absurd (.inl hj) hstop
    | succ j =>
      have := ih j (by rw [← hj]; congr 1; omega)
      simpa [Drained.visit] using this

end Drain

/-! ### The affected users -/

theorem mem_destutter'_ne {v : ℕ} (l : List ℕ) (a : ℕ) :
    v ∈ l.destutter' (· ≠ ·) a ↔ v = a ∨ v ∈ l := by
  induction l generalizing a with
  | nil => simp
  | cons b l ih =>
    rw [List.destutter'_cons]
    split_ifs with hab
    · rw [List.mem_cons, ih, List.mem_cons]
    · rw [ih, List.mem_cons, not_not.mp hab]
      tauto

theorem mem_affectedUsersSortDedup {v : ℕ} {l : List ℕ} :
    v ∈ affectedUsersSortDedup l ↔ v ∈ l := by
  unfold affectedUsersSortDedup
  have hmem : v ∈ l.insertionSort (· ≤ ·) ↔ v ∈ l := List.mem_insertionSort _
  rw [← hmem]
  cases l.insertionSort (· ≤ ·) with
  | nil => rfl
  | cons a l => rw [List.destutter_cons', mem_destutter'_ne, List.mem_cons]

/-- The affected users are sorted and occur once. -/
theorem pairwise_affectedUsersSortDedup (l : List ℕ) :
    (affectedUsersSortDedup l).Pairwise (· < ·) := by
  unfold affectedUsersSortDedup
  have hle : ((l.insertionSort (· ≤ ·)).destutter (· ≠ ·)).Pairwise (· ≤ ·) :=
    (List.pairwise_insertionSort (· ≤ ·) l).sublist (List.destutter_sublist _ _)
  have hne := List.isChain_destutter (· ≠ ·) (l.insertionSort (· ≤ ·))
  rw [← List.isChain_iff_pairwise] at hle ⊢
  rw [List.isChain_iff_getElem] at hle hne ⊢
  exact fun i hi => lt_of_le_of_ne (hle i hi) (hne i hi)

/-! ### The source functions -/

/-- The storage after a conversion whose list program ended in `r`. -/
structure Drains (intact : FundType → Prop) (t : FundType) (direction : SwapDirection)
    (s : FundStore) (lay : Layout) (r : Drained) (s' : FundStore) (lay' : Layout) : Prop where
  linked : Linked intact s' lay'
  coherent : Coherent s' lay'
  fundMaxId : s.fundMaxId ≤ s'.fundMaxId
  source : lay'.queue s' t = direction.walk r.kept
  target : ∀ t', t' ≠ t → lay'.queue s' t' =
    (r.extracted.filter (·.fundType = t')).foldl Entry.enqueue (lay.queue s t')

section Source

variable {f : Entry → Option FundDescription} {t : FundType} {direction : SwapDirection}

theorem Traversal.Simulates.drains {src : Source} {c c' : Cursor Unit} {lay' : Layout}
    {r : Drained} (h : Traversal.Simulates intact src direction c lay [] r c' lay') :
    Drains intact src.fundType direction c.store lay r c'.store lay' where
  linked := h.linked
  coherent := h.coherent
  fundMaxId := h.fundMaxId
  source := by
    rw [← SwapDirection.walk_walk direction (lay'.queue c'.store src.fundType), h.source]
    rfl
  target := h.target

/-- The traversal of a source from its start. -/
theorem FundStore.Linked.at_start (h : Linked intact s lay) (hco : Coherent s lay) (src : Source)
    (direction : SwapDirection) (optMaxAmount : Option ℕ) (hi : intact src.fundType) :
    Traversal.At intact src direction
      { store := s, closure := (), optMaxAmount, id := src.start direction s, visitedUsers := [],
        totalTransformed := 0 } lay [] (direction.walk (lay.byType src.fundType)) :=
  ⟨h, hco, rfl, h.start_eq hco hi⟩

theorem walk_queue (direction : SwapDirection) (s : FundStore) (lay : Layout) (t : FundType) :
    (direction.walk (lay.byType t)).map s.entry = direction.walk (lay.queue s t) :=
  (SwapDirection.walk_map s.entry).symm

/-- **`split_convert_max_by_type`** is `drain` on the queue of the type. It panics exactly when
more than `MAX_AFFECTED_USERS` items would be visited. -/
theorem FundStore.Linked.splitConvertMaxByType (h : Linked intact s lay) (hco : Coherent s lay)
    (hi : intact t) (direction : SwapDirection) (optMaxAmount : Option ℕ) (interrupt : ℕ → Bool)
    (hf : ∀ e d, e.fundType = t → f e = some d → d.fundType ≠ t) :
    let r := drain (fun _ => true) f interrupt 0 optMaxAmount (direction.walk (lay.queue s t))
    (r.visitedUsers.length ≤ maxAffectedUsers →
      ∃ s' lay', s.splitConvertMaxByType () optMaxAmount t direction
          (pureFilter fun item => f item.entry) interrupt false =
            .ok (s', (), r.optMaxAmount, affectedUsersSortDedup r.visitedUsers) ∧
        Drains intact t direction s lay r s' lay') ∧
    (maxAffectedUsers < r.visitedUsers.length →
      s.splitConvertMaxByType () optMaxAmount t direction
        (pureFilter fun item => f item.entry) interrupt false =
          .error (.scPanic "affected user capacity exceeded")) := by
  have hrun := Traversal.run_drain (T := { nextId := (Source.type t).link direction
                                           filterTransform := pureFilter fun item => f item.entry
                                           interrupt, dryRun := false })
    (.type t) f (.scPanic "affected user capacity exceeded") rfl rfl rfl hi hf _ [] lay _ 0
    maxAffectedUsers (h.at_start hco (.type t) direction optMaxAmount hi)
  simp only [walk_queue, Source.fundType] at hrun
  refine ⟨fun hle => ?_, fun hlt => ?_⟩
  · obtain ⟨c', lay', hok, hs⟩ := hrun.1 hle
    refine ⟨c'.store, lay', ?_, hs.drains⟩
    have hmax := hs.optMaxAmount
    have hvis := hs.visitedUsers
    simp only [List.nil_append] at hvis
    unfold FundStore.splitConvertMaxByType Traversal.run
    refine (congrArg (· >>= _) hok).trans ?_
    simp only [ok_bind, pure_eq_ok, hmax, hvis]
    rfl
  · unfold FundStore.splitConvertMaxByType Traversal.run
    exact congrArg (· >>= _) (hrun.2 hlt)

/-- A dry run of `split_convert_max_by_type` computes the same affected users and changes
nothing. -/
theorem FundStore.Linked.splitConvertMaxByType_of_dryRun (h : Linked intact s lay)
    (hco : Coherent s lay) (hi : intact t) (f : Entry → Option FundDescription)
    (direction : SwapDirection) (optMaxAmount : Option ℕ) (interrupt : ℕ → Bool) :
    let r := drain (fun _ => true) f interrupt 0 optMaxAmount (direction.walk (lay.queue s t))
    (r.visitedUsers.length ≤ maxAffectedUsers →
      s.splitConvertMaxByType () optMaxAmount t direction
          (pureFilter fun item => f item.entry) interrupt true =
            .ok (s, (), r.optMaxAmount, affectedUsersSortDedup r.visitedUsers)) ∧
    (maxAffectedUsers < r.visitedUsers.length →
      s.splitConvertMaxByType () optMaxAmount t direction
        (pureFilter fun item => f item.entry) interrupt true =
          .error (.scPanic "affected user capacity exceeded")) := by
  have hrun := Traversal.run_drain_of_dryRun (T := { nextId := (Source.type t).link direction
                                                     filterTransform :=
                                                       pureFilter fun item => f item.entry
                                                     interrupt, dryRun := true })
    (.type t) f (.scPanic "affected user capacity exceeded") rfl rfl rfl hi _ [] _ 0
    maxAffectedUsers (h.at_start hco (.type t) direction optMaxAmount hi)
  simp only [walk_queue, Source.fundType] at hrun
  refine ⟨fun hle => ?_, fun hlt => ?_⟩
  · obtain ⟨c', hok, hstore, hmax, hvis⟩ := hrun.1 hle
    simp only [List.nil_append] at hvis
    unfold FundStore.splitConvertMaxByType Traversal.run
    refine (congrArg (· >>= _) hok).trans ?_
    simp only [ok_bind, pure_eq_ok, hmax, hvis, hstore]
    rfl
  · unfold FundStore.splitConvertMaxByType Traversal.run
    exact congrArg (· >>= _) (hrun.2 hlt)

/-- **`split_convert_max_by_user`** is `drain` on the entries of the user, under a budget of gas. -/
theorem FundStore.Linked.splitConvertMaxByUser (h : Linked intact s lay) (hco : Coherent s lay)
    (hi : intact t) {g : FundDescription → Option FundDescription} (direction : SwapDirection)
    (optMaxAmount : Option ℕ) (u : ℕ) (interrupt : ℕ → Bool) (fuel : ℕ)
    (hg : ∀ d d', d.fundType = t → g d = some d' → d'.fundType ≠ t) :
    let r := drain (fun v => v = u) (fun e => g e.fundDesc) interrupt 0 optMaxAmount
      (direction.walk (lay.queue s t))
    (r.visitedUsers.length ≤ fuel →
      ∃ s' lay', s.splitConvertMaxByUser optMaxAmount u t direction g interrupt fuel =
          .ok (s', r.optMaxAmount, (r.extracted.map Entry.balance).sum) ∧
        Drains intact t direction s lay r s' lay') ∧
    (fuel < r.visitedUsers.length →
      s.splitConvertMaxByUser optMaxAmount u t direction g interrupt fuel = .error .outOfGas) := by
  have hrun := Traversal.run_drain (T := { nextId := (Source.user u t).link direction
                                           filterTransform := pureFilter fun item => g item.fundDesc
                                           interrupt, dryRun := false })
    (.user u t) (fun e => g e.fundDesc) .outOfGas rfl rfl rfl hi
    (fun e d => hg e.fundDesc d) _ [] lay _ 0 fuel
    (h.at_start hco (.user u t) direction optMaxAmount hi)
  simp only [walk_queue, Source.fundType] at hrun
  refine ⟨fun hle => ?_, fun hlt => ?_⟩
  · obtain ⟨c', lay', hok, hs⟩ := hrun.1 hle
    refine ⟨c'.store, lay', ?_, hs.drains⟩
    have hmax := hs.optMaxAmount
    have htot := hs.totalTransformed
    simp only [Nat.zero_add] at htot
    unfold FundStore.splitConvertMaxByUser Traversal.run
    refine (congrArg (· >>= _) hok).trans ?_
    simp only [ok_bind, pure_eq_ok, hmax, htot]
    rfl
  · unfold FundStore.splitConvertMaxByUser Traversal.run
    exact congrArg (· >>= _) (hrun.2 hlt)

theorem FundStore.Linked.splitConvertMaxByType_evolves (h : Linked intact s lay)
    (hco : Coherent s lay) (hi : intact t) (direction : SwapDirection) (optMaxAmount : Option ℕ)
    (interrupt : ℕ → Bool) (hf : ∀ e d, e.fundType = t → f e = some d → d.fundType ≠ t) :
    Spec (s.splitConvertMaxByType () optMaxAmount t direction
      (pureFilter fun item => f item.entry) interrupt false) (fun r => Evolves s r.1)
      (fun _ => True) := by
  refine Spec.bind (Traversal.run_evolves (.type t) rfl hi (fun _ _ item d _ ht hr => ?_) rfl
    maxAffectedUsers ⟨lay, h, hco⟩ ?_) fun c hc => hc.2
  · simp only [pureFilter, Except.ok.injEq, Prod.mk.injEq] at hr
    exact hf item.entry d ht hr.1
  · exact h.start_live (.type t) direction

theorem FundStore.Linked.splitConvertMaxByUser_evolves (h : Linked intact s lay)
    (hco : Coherent s lay) (hi : intact t) (direction : SwapDirection) (optMaxAmount : Option ℕ)
    (u : ℕ) {g : FundDescription → Option FundDescription} (interrupt : ℕ → Bool) (fuel : ℕ)
    (hg : ∀ d d', d.fundType = t → g d = some d' → d'.fundType ≠ t) :
    Spec (s.splitConvertMaxByUser optMaxAmount u t direction g interrupt fuel)
      (fun r => Evolves s r.1) (fun _ => True) := by
  refine Spec.bind (Traversal.run_evolves (.user u t) rfl hi (fun _ _ item d _ ht hr => ?_)
    rfl fuel ⟨lay, h, hco⟩ ?_) fun c hc => hc.2
  · simp only [pureFilter, Except.ok.injEq, Prod.mk.injEq] at hr
    exact hg item.fundDesc d ht hr.1
  · exact h.start_live (.user u t) direction

end Source

/-! ### Cached totals after a conversion -/

/-- Of the balance of type `src`, `amount` moved to the type `dst`, `moved u` of it of the user
`u`. -/
structure FundStore.Shift (s s' : FundStore) (src dst : FundType) (moved : ℕ → ℕ) (amount : ℕ) :
    Prop where
  typeTotal : ∀ t, s'.typeTotal t + (if t = src then amount else 0) =
    s.typeTotal t + if t = dst then amount else 0
  userTotal : ∀ u t, s'.userTotal u t + (if t = src then moved u else 0) =
    s.userTotal u t + if t = dst then moved u else 0

/-- The cached total of a type is the total of its queue. -/
theorem FundStore.Linked.typeTotal_eq_total (h : Linked intact s lay) (t : FundType) :
    s.typeTotal t = Entry.total (fun _ => true) (lay.queue s t) := by
  rw [h.typeTotal_eq]
  unfold Entry.total Layout.queue sumBalances
  rw [List.filter_eq_self.mpr fun _ _ => rfl, List.map_map]
  rfl

/-- The cached total of a user and type is what the user holds in the queue. -/
theorem FundStore.Linked.userTotal_eq_total (h : Linked intact s lay) (hco : Coherent s lay)
    (u : ℕ) (t : FundType) :
    s.userTotal u t = Entry.total (fun v => v = u) (lay.queue s t) := by
  rw [h.userTotal_eq, hco u t]
  unfold Entry.total Layout.queue sumBalances
  rw [List.filter_map, List.map_map]
  rfl

theorem Drains.shift {src dst : FundType} {direction : SwapDirection} {r : Drained}
    {s' : FundStore} {lay' : Layout} (hd : Drains intact src direction s lay r s' lay')
    (h : Linked intact s lay) (hco : Coherent s lay) (hne : dst ≠ src)
    (hdst : ∀ e ∈ r.extracted, e.fundType = dst)
    (htotal : ∀ p, Entry.total p r.kept + Entry.total p r.extracted =
      Entry.total p (lay.queue s src)) :
    Shift s s' src dst (fun u => Entry.total (fun v => v = u) r.extracted)
      (Entry.total (fun _ => true) r.extracted) := by
  have main : ∀ p t, Entry.total p (lay'.queue s' t) +
      (if t = src then Entry.total p r.extracted else 0) =
        Entry.total p (lay.queue s t) + if t = dst then Entry.total p r.extracted else 0 := by
    intro p t
    rcases eq_or_ne t src with rfl | hsrc
    · rw [hd.source, Entry.total_walk, if_pos rfl, if_neg hne.symm, htotal, Nat.add_zero]
    · rw [hd.target t hsrc, Entry.total_foldl_enqueue, if_neg hsrc]
      rcases eq_or_ne t dst with rfl | hdst'
      · rw [List.filter_eq_self.mpr fun e he => by simp [hdst e he], if_pos rfl, Nat.add_zero]
      · rw [List.filter_eq_nil_iff.mpr fun e he => by simp [hdst e he, hdst'.symm], if_neg hdst']
        rfl
  constructor
  · intro t
    rw [hd.linked.typeTotal_eq_total, h.typeTotal_eq_total]
    exact main _ t
  · intro u t
    rw [hd.linked.userTotal_eq_total hd.coherent, h.userTotal_eq_total hco]
    exact main _ t

end Delegation
