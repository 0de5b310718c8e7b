import Delegation.Fund.Convert

/-!
# Traversals are list programs

The abstract side of a conversion: it walks a queue from one of its ends and takes entries out,
wholly or, for the one that exhausts the maximum, in part (`drain`). What it takes out enters the
queues of the new descriptions, in the order in which it was taken.

`Traversal.run_drain` shows that the loops of the fund module simulate this program while they
edit the links of the very list they follow, and that they exceed their bound exactly when the
program visits more entries than the bound.
-/

namespace Delegation

open Outcome Loop DoublyLinked

/-! ### Leaving a queue -/

/-- What a conversion leaves behind: the entries that stay, in walking order; the amounts taken
out, each with its user and new description, in the order in which they were taken; the rest of
the maximum; and the users of the visited entries. -/
structure Drained where
  kept : List Entry
  extracted : List Entry
  optMaxAmount : Option ℕ
  visitedUsers : List ℕ

/-- What a visit puts in front of the rest of a walk. -/
def Drained.visit (e : Entry) (kept extracted : List Entry) (r : Drained) : Drained where
  kept := kept ++ r.kept
  extracted := extracted ++ r.extracted
  optMaxAmount := r.optMaxAmount
  visitedUsers := e.userId :: r.visitedUsers

/-- Walks the entries selected by `sel` until they end, the interrupt fires or the maximum is
exhausted; an entry that the filter accepts is taken wholly, or in part if the maximum does not
reach. `k` counts the visits. -/
def drain (sel : ℕ → Bool) (f : Entry → Option FundDescription) (interrupt : ℕ → Bool) :
    ℕ → Option ℕ → List Entry → Drained
  | _, max, [] => ⟨[], [], max, []⟩
  | k, max, e :: q =>
      if sel e.userId = false then
        let r := drain sel f interrupt k max q
        { r with kept := e :: r.kept }
      else if interrupt k ∨ max = some 0 then ⟨e :: q, [], max, []⟩
      else
        match f e with
        | none => (drain sel f interrupt (k + 1) max q).visit e [e] []
        | some d =>
            let x := FundStore.takenBalance max e.balance
            (drain sel f interrupt (k + 1) (max.map (· - x)) q).visit e
              (if x = e.balance then [] else [{ e with balance := e.balance - x }])
              [⟨e.userId, d, x⟩]

section Drain

variable {sel : ℕ → Bool} {f : Entry → Option FundDescription} {interrupt : ℕ → Bool} {k : ℕ}
  {max : Option ℕ} {e : Entry} {q : List Entry} {d : FundDescription}

theorem drain_of_not_sel (h : sel e.userId = false) : drain sel f interrupt k max (e :: q) =
    { drain sel f interrupt k max q with kept := e :: (drain sel f interrupt k max q).kept } :=
  if_pos h

theorem drain_of_stop (hs : sel e.userId = true) (h : interrupt k ∨ max = some 0) :
    drain sel f interrupt k max (e :: q) = ⟨e :: q, [], max, []⟩ := by
  rw [drain, if_neg (by simp [hs]), if_pos h]

theorem drain_of_none (hs : sel e.userId = true) (h : ¬ (interrupt k ∨ max = some 0))
    (hf : f e = none) : drain sel f interrupt k max (e :: q) =
      (drain sel f interrupt (k + 1) max q).visit e [e] [] := by
  rw [drain, if_neg (by simp [hs]), if_neg h, hf]

theorem drain_of_some (hs : sel e.userId = true) (h : ¬ (interrupt k ∨ max = some 0))
    (hf : f e = some d) : drain sel f interrupt k max (e :: q) =
      (drain sel f interrupt (k + 1) (max.map (· - FundStore.takenBalance max e.balance)) q).visit e
        (if FundStore.takenBalance max e.balance = e.balance then []
        else [{ e with balance := e.balance - FundStore.takenBalance max e.balance }])
        [⟨e.userId, d, FundStore.takenBalance max e.balance⟩] := by
  rw [drain, if_neg (by simp [hs]), if_neg h, hf]

end Drain

/-! ### Walking a list -/

/-- The list that a traversal follows. -/
inductive Source
  | type (t : FundType)
  | user (u : ℕ) (t : FundType)

namespace Source

/-- The type of the items of a source. -/
def fundType : Source → FundType
  | type t => t
  | user _ t => t

/-- The users whose items a source holds. -/
def sel : Source → ℕ → Bool
  | type _, _ => true
  | user u _, v => v = u

/-- The link that a traversal of the source follows. -/
def link (direction : SwapDirection) : Source → FundItem → ℕ
  | type _ => FundItem.typeListLink direction
  | user _ _ => FundItem.userListLink direction

/-- The id that a traversal of the source starts from. -/
def start (direction : SwapDirection) (s : FundStore) : Source → ℕ
  | type t => s.firstIdOfType t direction
  | user u t => s.firstIdOfUserType u t direction

end Source

/-- A list in the order of a direction. -/
def SwapDirection.walk {α : Type} (direction : SwapDirection) (l : List α) : List α :=
  match direction with
  | .forwards => l
  | .backwards => l.reverse

/-- The neighbour of an id in a direction. -/
def SwapDirection.next (direction : SwapDirection) (L : Links ℕ) (id : ℕ) : ℕ :=
  match direction with
  | .forwards => L.next id
  | .backwards => L.prev id

/-- The end of a list from which a direction starts. -/
def SwapDirection.first (direction : SwapDirection) (L : Links ℕ) : ℕ :=
  match direction with
  | .forwards => L.first
  | .backwards => L.last

section Walk

variable {α β : Type} {direction : SwapDirection} {l : List α}

@[simp]
theorem SwapDirection.walk_walk (direction : SwapDirection) (l : List α) :
    direction.walk (direction.walk l) = l := by
  cases direction <;> simp [walk]

theorem SwapDirection.walk_map (f : α → β) :
    direction.walk (l.map f) = (direction.walk l).map f := by
  cases direction <;> simp [walk]

theorem SwapDirection.walk_filter (p : α → Bool) :
    direction.walk (l.filter p) = (direction.walk l).filter p := by
  cases direction <;> simp [walk]

theorem SwapDirection.mem_walk (direction : SwapDirection) {a : α} :
    a ∈ direction.walk l ↔ a ∈ l := by
  cases direction <;> simp [walk]

theorem SwapDirection.nodup_walk (direction : SwapDirection) (h : l.Nodup) :
    (direction.walk l).Nodup := by
  cases direction
  · exact h
  · exact List.nodup_reverse.mpr h

theorem SwapDirection.walk_erase [DecidableEq α] (h : l.Nodup) (a : α) :
    direction.walk (l.erase a) = (direction.walk l).erase a := by
  rw [h.erase_eq_filter, (direction.nodup_walk h).erase_eq_filter, walk_filter]

/-- The link of an item is its neighbour in the walk. -/
theorem rep_link_walk {L : Links ℕ} {l K R : List ℕ} {id : ℕ} (h : L.Rep l)
    (hw : direction.walk l = K ++ id :: R) :
    direction.next L id = R.headD 0 := by
  cases direction with
  | forwards =>
    obtain rfl : l = K ++ id :: R := hw
    exact h.links.2
  | backwards =>
    have hl : l = R.reverse ++ id :: K.reverse := by
      rw [← List.reverse_reverse l, show l.reverse = _ from hw]
      simp
    subst hl
    refine h.links.1.trans ?_
    cases R <;> simp

/-- A walk starts at the end of the list that its direction names. -/
theorem rep_start_walk (direction : SwapDirection) {L : Links ℕ} {l : List ℕ} (h : L.Rep l) :
    direction.first L = (direction.walk l).headD 0 := by
  cases direction with
  | forwards => exact h.first
  | backwards =>
    refine h.last.trans ?_
    rcases List.eq_nil_or_concat l with rfl | ⟨l', a, rfl⟩ <;> simp [SwapDirection.walk]

end Walk

namespace FundStore

variable {intact : FundType → Prop} {s : FundStore} {lay : Layout} {id : ℕ} {src : Source}
  {direction : SwapDirection} {K R : List ℕ}

/-- An item belongs to the source. -/
def selected (s : FundStore) (src : Source) (id : ℕ) : Bool := src.sel (s.fundById id).userId

theorem filter_selected_type {t : FundType} (ids : List ℕ) :
    ids.filter (s.selected (.type t)) = ids :=
  List.filter_eq_self.mpr fun _ _ => rfl

/-- The list by user, walked, is the selected part of the walk over the type. -/
theorem Coherent.walk_byUser {u : ℕ} {t : FundType} (hco : Coherent s lay) :
    direction.walk (lay.byUser (u, t)) =
      (direction.walk (lay.byType t)).filter (s.selected (.user u t)) := by
  rw [hco u t, SwapDirection.walk_filter]
  rfl

/-- The traversal goes on to the next selected item of the walk. -/
theorem Linked.link_eq (h : Linked intact s lay) (hco : Coherent s lay)
    (hi : intact src.fundType) (hw : direction.walk (lay.byType src.fundType) = K ++ id :: R)
    (hsel : s.selected src id = true) :
    src.link direction (s.fundById id) = (R.filter (s.selected src)).headD 0 := by
  cases src with
  | type t =>
    have hl := rep_link_walk (h.types.rep t hi) hw
    rw [filter_selected_type, ← hl]
    cases direction <;> rfl
  | user u t =>
    have hw' : direction.walk (lay.byUser (u, t)) =
        K.filter (s.selected (.user u t)) ++ id :: R.filter (s.selected (.user u t)) := by
      rw [hco.walk_byUser, show direction.walk (lay.byType t) = _ from hw, List.filter_append,
        List.filter_cons_of_pos hsel]
    have hl := rep_link_walk (h.users.rep (u, t) trivial) hw'
    rw [← hl]
    cases direction <;> rfl

/-- The traversal starts at the first selected item of the walk. -/
theorem Linked.start_eq (h : Linked intact s lay) (hco : Coherent s lay)
    (hi : intact src.fundType) : src.start direction s =
      ((direction.walk (lay.byType src.fundType)).filter (s.selected src)).headD 0 := by
  cases src with
  | type t =>
    have hl := rep_start_walk direction (h.types.rep t hi)
    rw [filter_selected_type]
    refine Eq.trans ?_ hl
    cases direction <;> rfl
  | user u t =>
    have hl := rep_start_walk direction (h.users.rep (u, t) trivial)
    rw [hco.walk_byUser] at hl
    refine Eq.trans ?_ hl
    cases direction <;> rfl

theorem decreaseMaxAmount_eq (optMaxAmount : Option ℕ) (item : FundItem) :
    decreaseMaxAmount optMaxAmount item =
      optMaxAmount.map (· - takenBalance optMaxAmount item.balance) := by
  cases optMaxAmount with
  | none => rfl
  | some maxAmount =>
    simp only [decreaseMaxAmount, takenBalance, Option.map_some, Option.some.injEq]
    split_ifs <;> omega

end FundStore

/-! ### One visit -/

namespace Traversal

open FundStore

variable {intact : FundType → Prop} {T : Traversal Unit} {f : Entry → Option FundDescription}
  {c : Cursor Unit} {lay : Layout} {d : FundDescription}

/-- A traversal whose filter decides on entries. -/
def Filters (T : Traversal Unit) (f : Entry → Option FundDescription) : Prop :=
  T.filterTransform = pureFilter fun item => f item.entry

theorem visit_of_none (hT : T.Filters f) (hid : c.store.Live c.id)
    (hf : f (c.store.entry c.id) = none) :
    T.visit c = .ok
      { c with
        id := T.nextId (c.store.fundById c.id)
        visitedUsers := c.visitedUsers ++ [(c.store.entry c.id).userId] } := by
  unfold visit
  rw [show T.filterTransform = _ from hT]
  simp only [pureFilter, ok_bind, show f (c.store.fundById c.id).entry = none from hf, pure_eq_ok,
    setFund_self hid]
  rfl

theorem visit_of_dryRun (hT : T.Filters f) (hid : c.store.Live c.id)
    (hf : f (c.store.entry c.id) = some d) (hdry : T.dryRun = true) :
    T.visit c = .ok
      { c with
        optMaxAmount :=
          c.optMaxAmount.map (· - takenBalance c.optMaxAmount (c.store.entry c.id).balance)
        id := T.nextId (c.store.fundById c.id)
        visitedUsers := c.visitedUsers ++ [(c.store.entry c.id).userId] } := by
  unfold visit
  rw [show T.filterTransform = _ from hT]
  simp only [pureFilter, ok_bind, show f (c.store.fundById c.id).entry = some d from hf, hdry,
    if_true, pure_eq_ok, setFund_self hid, decreaseMaxAmount_eq]
  rfl

/-- An accepted visit converts the item. -/
theorem visit_of_some (hT : T.Filters f) (h : Linked intact c.store lay)
    (hid : c.store.Live c.id) (hf : f (c.store.entry c.id) = some d) (hdry : T.dryRun = false)
    (hmax : c.optMaxAmount ≠ some 0)
    (hd : (c.store.fundById c.id).fundType ≠ d.fundType ∨
      takenBalance c.optMaxAmount (c.store.entry c.id).balance = (c.store.entry c.id).balance) :
    ∃ store lay', T.visit c = .ok
        { c with
          store := store
          optMaxAmount :=
            c.optMaxAmount.map (· - takenBalance c.optMaxAmount (c.store.entry c.id).balance)
          id := T.nextId (c.store.fundById c.id)
          visitedUsers := c.visitedUsers ++ [(c.store.entry c.id).userId]
          totalTransformed := c.totalTransformed +
            takenBalance c.optMaxAmount (c.store.entry c.id).balance } ∧
      Converted intact c.store lay c.id d
        (takenBalance c.optMaxAmount (c.store.entry c.id).balance) store lay' := by
  obtain ⟨s₂, item₁, hconv, lay', hc⟩ := h.convert hid hmax hd
  refine ⟨s₂.setFund c.id item₁, lay', ?_, hc⟩
  unfold visit
  rw [show T.filterTransform = _ from hT]
  simp only [pureFilter, ok_bind, show f (c.store.fundById c.id).entry = some d from hf, hdry,
    Bool.false_eq_true, if_false, hconv, pure_eq_ok]
  rfl

/-! ### The simulation -/

/-- The traversal stands before the part `R` of its walk and has left the part `K` behind. -/
structure At (intact : FundType → Prop) (src : Source) (direction : SwapDirection)
    (c : Cursor Unit) (lay : Layout) (K R : List ℕ) : Prop where
  linked : Linked intact c.store lay
  coherent : Coherent c.store lay
  walk : direction.walk (lay.byType src.fundType) = K ++ R
  id : c.id = (R.filter (c.store.selected src)).headD 0

/-- The traversal from `c` to `c'` has done what the list program says with the result `r`, with
the entries `kept₀` left behind before `c`. -/
structure Simulates (intact : FundType → Prop) (src : Source) (direction : SwapDirection)
    (c : Cursor Unit) (lay : Layout) (kept₀ : List Entry) (r : Drained) (c' : Cursor Unit)
    (lay' : Layout) : Prop where
  linked : Linked intact c'.store lay'
  coherent : Coherent c'.store lay'
  fundMaxId : c.store.fundMaxId ≤ c'.store.fundMaxId
  source : direction.walk (lay'.queue c'.store src.fundType) = kept₀ ++ r.kept
  target : ∀ t, t ≠ src.fundType → lay'.queue c'.store t =
    (r.extracted.filter (·.fundType = t)).foldl Entry.enqueue (lay.queue c.store t)
  optMaxAmount : c'.optMaxAmount = r.optMaxAmount
  visitedUsers : c'.visitedUsers = c.visitedUsers ++ r.visitedUsers
  totalTransformed : c'.totalTransformed =
    c.totalTransformed + (r.extracted.map Entry.balance).sum

theorem At.stop {src : Source} {direction : SwapDirection} {K R : List ℕ}
    (h : At intact src direction c lay K R) : Simulates intact src direction c lay
      (K.map c.store.entry) ⟨R.map c.store.entry, [], c.optMaxAmount, []⟩ c lay where
  linked := h.linked
  coherent := h.coherent
  fundMaxId := le_rfl
  source := by
    unfold Layout.queue
    rw [SwapDirection.walk_map, h.walk, List.map_append]
  target _ _ := rfl
  optMaxAmount := rfl
  visitedUsers := (List.append_nil _).symm
  totalTransformed := rfl

section Step

variable {src : Source} {direction : SwapDirection} {K R : List ℕ} {a : ℕ}

theorem At.mem (h : At intact src direction c lay K (a :: R)) : a ∈ lay.byType src.fundType := by
  rw [← direction.mem_walk, h.walk]
  simp

theorem At.live (h : At intact src direction c lay K (a :: R)) : c.store.Live a :=
  h.linked.live h.mem

theorem At.fundType_eq (h : At intact src direction c lay K (a :: R)) :
    (c.store.fundById a).fundType = src.fundType :=
  h.linked.fundType_eq h.mem

/-- An item of another user is not on the way of the traversal. -/
theorem At.skip (h : At intact src direction c lay K (a :: R))
    (hsel : c.store.selected src a = false) : At intact src direction c lay (K ++ [a]) R where
  linked := h.linked
  coherent := h.coherent
  walk := by rw [h.walk]; simp
  id := by rw [h.id, List.filter_cons_of_neg (by simp [hsel])]

theorem At.id_eq (h : At intact src direction c lay K (a :: R))
    (hsel : c.store.selected src a = true) : c.id = a := by
  rw [h.id, List.filter_cons_of_pos hsel]
  rfl

/-- A rejected item stays behind. -/
theorem At.keep (h : At intact src direction c lay K (a :: R)) (hi : intact src.fundType)
    (hsel : c.store.selected src a = true) (max : Option ℕ) (visited : List ℕ) :
    At intact src direction
      { c with
        optMaxAmount := max
        id := src.link direction (c.store.fundById a)
        visitedUsers := visited } lay
      (K ++ [a]) R where
  linked := h.linked
  coherent := h.coherent
  walk := by rw [h.walk]; simp
  id := h.linked.link_eq h.coherent hi h.walk hsel

/-- A converted item leaves the walk, or stays behind with the rest of its balance. -/
theorem At.convert (h : At intact src direction c lay K (a :: R)) (hi : intact src.fundType)
    (hsel : c.store.selected src a = true) (hd : d.fundType ≠ src.fundType) {x : ℕ}
    {store : FundStore} {lay' : Layout} (hc : Converted intact c.store lay a d x store lay')
    (max : Option ℕ) (visited : List ℕ) (total : ℕ) :
    At intact src direction
      { c with
        store := store
        optMaxAmount := max
        id := src.link direction (c.store.fundById a)
        visitedUsers := visited
        totalTransformed := total } lay'
      (K ++ if x = (c.store.fundById a).balance then [] else [a]) R ∧
    (∀ b ∈ K ++ R, store.entry b = c.store.entry b) ∧
    (K ++ if x = (c.store.fundById a).balance then [] else [a]).map store.entry =
      K.map c.store.entry ++ if x = (c.store.entry a).balance then []
        else [{ c.store.entry a with balance := (c.store.entry a).balance - x }] := by
  have hnd : (K ++ a :: R).Nodup := h.walk ▸ direction.nodup_walk (h.linked.types.nodup _)
  have hmem : ∀ b ∈ K ++ a :: R, b ∈ lay.byType src.fundType := fun b hb =>
    direction.mem_walk.mp (h.walk ▸ hb)
  have haK : a ∉ K := fun hm => (List.nodup_append.mp hnd).2.2 a hm a (by simp) rfl
  have haR : a ∉ R := (List.nodup_cons.mp (List.nodup_append.mp hnd).2.1).1
  have hother : ∀ b ∈ K ++ R, store.entry b = c.store.entry b := by
    intro b hb
    have hb' : b ∈ lay.byType src.fundType := hmem b (by simp at hb ⊢; tauto)
    refine hc.entry b ?_ (h.linked.live hb') ?_
    · rintro rfl
      simp [haK, haR] at hb
    · rw [h.linked.fundType_eq hb']
      exact hd.symm
  have hK : K.map store.entry = K.map c.store.entry :=
    List.map_congr_left fun b hb => hother b (by simp [hb])
  refine ⟨⟨hc.linked, hc.coherent h.coherent, ?_, ?_⟩, hother, ?_⟩
  · rw [hc.byType _ hd.symm]
    split_ifs with hw
    · rw [SwapDirection.walk_erase (h.linked.types.nodup _), h.walk, List.erase_append_right _ haK,
        List.erase_cons_head, List.append_nil]
    · rw [h.walk]
      simp
  · rw [show src.link direction (c.store.fundById a) = _ from
      h.linked.link_eq h.coherent hi h.walk hsel]
    refine congrArg (List.headD · 0) (List.filter_congr fun b hb => ?_)
    exact congrArg src.sel (congrArg Entry.userId (hother b (by simp [hb]))).symm
  · rw [List.map_append, hK]
    have hb : (c.store.entry a).balance = (c.store.fundById a).balance := rfl
    rw [hb]
    split_ifs with hw
    · rfl
    · rw [List.map_singleton, hc.part (h.fundType_eq ▸ hd.symm) (lt_of_le_of_ne hc.le hw)]

end Step

variable {direction : SwapDirection}

theorem guard_eq_false_iff {k : ℕ} (hid : 0 < c.id) :
    T.guard k c = false ↔ T.interrupt k = true ∨ c.optMaxAmount = some 0 := by
  cases h : T.interrupt k <;> simp [guard, hid, h]

/-- **Simulation.** A traversal that converts items of its source into other types does what
`drain` says, or exceeds its budget if `drain` visits more entries. -/
theorem run_drain (src : Source) (f : Entry → Option FundDescription) (overrun : Panic)
    (hnext : T.nextId = src.link direction) (hT : T.Filters f)
    (hdry : T.dryRun = false) (hi : intact src.fundType)
    (hf : ∀ e d, e.fundType = src.fundType → f e = some d → d.fundType ≠ src.fundType) :
    ∀ (R K : List ℕ) (lay : Layout) (c : Cursor Unit) (k budget : ℕ),
      At intact src direction c lay K R →
      ((drain src.sel f T.interrupt k c.optMaxAmount
          (R.map c.store.entry)).visitedUsers.length ≤ budget →
        ∃ c' lay', whileLoop T.guard T.visit overrun budget k c = .ok c' ∧
          Simulates intact src direction c lay (K.map c.store.entry)
            (drain src.sel f T.interrupt k c.optMaxAmount (R.map c.store.entry)) c' lay') ∧
      (budget < (drain src.sel f T.interrupt k c.optMaxAmount
          (R.map c.store.entry)).visitedUsers.length →
        whileLoop T.guard T.visit overrun budget k c = .error overrun) := by
  intro R
  induction R with
  | nil =>
    intro K lay c k budget h
    have hid : c.id = 0 := h.id
    have hg : T.guard k c = false := by simp [guard, hid]
    exact ⟨fun _ => ⟨c, lay, whileLoop_of_not_guard hg _, h.stop⟩, fun hlt => by
      simp [drain] at hlt⟩
  | cons a R ih =>
    intro K lay c k budget h
    rw [List.map_cons]
    rcases hsel : c.store.selected src a with _ | _
    · -- not on the way
      rw [drain_of_not_sel hsel]
      obtain ⟨h1, h2⟩ := ih (K ++ [a]) lay c k budget (h.skip hsel)
      refine ⟨fun hle => ?_, h2⟩
      obtain ⟨c', lay', hrun, hs⟩ := h1 hle
      refine ⟨c', lay', hrun, { hs with source := ?_ }⟩
      rw [hs.source]
      simp
    have hida := h.id_eq hsel
    have hlive := h.live
    have hpos : 0 < c.id := hida ▸ Nat.pos_of_ne_zero (h.linked.ne_zero hlive)
    by_cases hstop : T.interrupt k = true ∨ c.optMaxAmount = some 0
    · rw [drain_of_stop hsel hstop]
      have hg : T.guard k c = false := (guard_eq_false_iff hpos).mpr hstop
      exact ⟨fun _ => ⟨c, lay, whileLoop_of_not_guard hg _, h.stop⟩, fun hlt => by
        simp at hlt⟩
    have hg : T.guard k c = true := by
      rw [← Bool.not_eq_false, guard_eq_false_iff hpos]
      exact hstop
    have hlive' : c.store.Live c.id := hida ▸ hlive
    cases hfa : f (c.store.entry a) with
    | none =>
      rw [drain_of_none hsel hstop hfa]
      have hvisit := visit_of_none hT hlive' (hida ▸ hfa)
      rw [hnext, hida] at hvisit
      cases budget with
      | zero => exact ⟨fun hle => by simp [Drained.visit] at hle, fun _ => by simp [whileLoop, hg]⟩
      | succ budget =>
        rw [whileLoop_succ_of_guard hg, hvisit, ok_bind]
        obtain ⟨h1, h2⟩ := ih (K ++ [a]) lay _ (k + 1) budget
          (h.keep hi hsel c.optMaxAmount (c.visitedUsers ++ [(c.store.entry a).userId]))
        refine ⟨fun hle => ?_, fun hlt => h2 (by simpa [Drained.visit] using hlt)⟩
        obtain ⟨c', lay', hrun, hs⟩ := h1 (by simpa [Drained.visit] using hle)
        refine ⟨c', lay', hrun, { hs with source := ?_, visitedUsers := ?_ }⟩
        · rw [hs.source]
          simp [Drained.visit]
        · rw [hs.visitedUsers]
          simp [Drained.visit]
    | some d =>
      rw [drain_of_some hsel hstop hfa]
      have hd := hf (c.store.entry a) d h.fundType_eq hfa
      obtain ⟨store, lay₁, hvisit, hc⟩ := visit_of_some hT h.linked hlive' (hida ▸ hfa) hdry
        (fun e => hstop (.inr e)) (.inl (by rw [hida, h.fundType_eq]; exact hd.symm))
      rw [hnext] at hvisit
      rw [hida] at hvisit hc
      set x := takenBalance c.optMaxAmount (c.store.entry a).balance with hx
      cases budget with
      | zero => exact ⟨fun hle => by simp [Drained.visit] at hle, fun _ => by simp [whileLoop, hg]⟩
      | succ budget =>
        rw [whileLoop_succ_of_guard hg, hvisit, ok_bind]
        obtain ⟨hat, hother, hleft⟩ := h.convert hi hsel hd hc
          (c.optMaxAmount.map (· - x)) (c.visitedUsers ++ [(c.store.entry a).userId])
          (c.totalTransformed + x)
        obtain ⟨h1, h2⟩ := ih _ lay₁ _ (k + 1) budget hat
        have hR : R.map store.entry = R.map c.store.entry :=
          List.map_congr_left fun b hb => hother b (by simp [hb])
        simp only [hR] at h1 h2
        refine ⟨fun hle => ?_, fun hlt => h2 (by simpa [Drained.visit] using hlt)⟩
        obtain ⟨c', lay', hrun, hs⟩ := h1 (by simpa [Drained.visit] using hle)
        refine ⟨c', lay', hrun, hs.linked, hs.coherent, hc.fundMaxId.trans hs.fundMaxId, ?_,
          fun t ht => ?_, hs.optMaxAmount, ?_, ?_⟩
        · rw [hs.source, hleft, List.append_assoc]
          rfl
        · rw [hs.target t ht]
          by_cases htd : d.fundType = t
          · subst htd
            have hq := hc.queue h.coherent (by rw [h.fundType_eq]; exact hd.symm)
            simp only [hq, Drained.visit, List.singleton_append]
            rw [List.filter_cons_of_pos (by simp [Entry.fundType]), List.foldl_cons]
            rfl
          · have hq := hc.queue_of_ne h.linked (Ne.symm htd) (by rw [h.fundType_eq]; exact ht)
            simp only [hq, Drained.visit, List.singleton_append]
            rw [List.filter_cons_of_neg (by simp [Entry.fundType, htd])]
        · rw [hs.visitedUsers]
          simp [Drained.visit]
        · rw [hs.totalTransformed]
          simp [Drained.visit, Nat.add_assoc]

/-- A dry run visits what the real run would visit and changes no storage. -/
theorem run_drain_of_dryRun (src : Source) (f : Entry → Option FundDescription)
    (overrun : Panic) (hnext : T.nextId = src.link direction) (hT : T.Filters f)
    (hdry : T.dryRun = true) (hi : intact src.fundType) :
    ∀ (R K : List ℕ) (c : Cursor Unit) (k budget : ℕ),
      At intact src direction c lay K R →
      ((drain src.sel f T.interrupt k c.optMaxAmount
          (R.map c.store.entry)).visitedUsers.length ≤ budget →
        ∃ c', whileLoop T.guard T.visit overrun budget k c = .ok c' ∧ c'.store = c.store ∧
          c'.optMaxAmount = (drain src.sel f T.interrupt k c.optMaxAmount
            (R.map c.store.entry)).optMaxAmount ∧
          c'.visitedUsers = c.visitedUsers ++ (drain src.sel f T.interrupt k c.optMaxAmount
            (R.map c.store.entry)).visitedUsers) ∧
      (budget < (drain src.sel f T.interrupt k c.optMaxAmount
          (R.map c.store.entry)).visitedUsers.length →
        whileLoop T.guard T.visit overrun budget k c = .error overrun) := by
  intro R
  induction R with
  | nil =>
    intro K c k budget h
    have hid : c.id = 0 := h.id
    have hg : T.guard k c = false := by simp [guard, hid]
    exact ⟨fun _ => ⟨c, whileLoop_of_not_guard hg _, rfl, rfl, by simp [drain]⟩, fun hlt => by
      simp [drain] at hlt⟩
  | cons a R ih =>
    intro K c k budget h
    rw [List.map_cons]
    rcases hsel : c.store.selected src a with _ | _
    · rw [drain_of_not_sel hsel]
      exact ih (K ++ [a]) c k budget (h.skip hsel)
    have hida := h.id_eq hsel
    have hlive : c.store.Live c.id := hida ▸ h.live
    have hpos : 0 < c.id := Nat.pos_of_ne_zero (h.linked.ne_zero hlive)
    by_cases hstop : T.interrupt k = true ∨ c.optMaxAmount = some 0
    · rw [drain_of_stop hsel hstop]
      have hg : T.guard k c = false := (guard_eq_false_iff hpos).mpr hstop
      exact ⟨fun _ => ⟨c, whileLoop_of_not_guard hg _, rfl, rfl, by simp⟩, fun hlt => by
        simp at hlt⟩
    have hg : T.guard k c = true := by
      rw [← Bool.not_eq_false, guard_eq_false_iff hpos]
      exact hstop
    -- accepted or not, the item stays and only the maximum may change
    obtain ⟨max, kept, extracted, hdrain, hvisit⟩ : ∃ max kept extracted,
        drain src.sel f T.interrupt k c.optMaxAmount
            (c.store.entry a :: R.map c.store.entry) =
          (drain src.sel f T.interrupt (k + 1) max (R.map c.store.entry)).visit
            (c.store.entry a) kept extracted ∧
        T.visit c = .ok { c with
          optMaxAmount := max
          id := src.link direction (c.store.fundById a)
          visitedUsers := c.visitedUsers ++ [(c.store.entry a).userId] } := by
      cases hfa : f (c.store.entry a) with
      | none =>
        refine ⟨_, _, _, drain_of_none hsel hstop hfa, ?_⟩
        rw [visit_of_none hT hlive (hida ▸ hfa), hnext, hida]
      | some d =>
        refine ⟨_, _, _, drain_of_some hsel hstop hfa, ?_⟩
        rw [visit_of_dryRun hT hlive (hida ▸ hfa) hdry, hnext, hida]
    rw [hdrain]
    cases budget with
    | zero => exact ⟨fun hle => by simp [Drained.visit] at hle, fun _ => by simp [whileLoop, hg]⟩
    | succ budget =>
      rw [whileLoop_succ_of_guard hg, hvisit, ok_bind]
      obtain ⟨h1, h2⟩ := ih (K ++ [a]) _ (k + 1) budget (h.keep hi hsel max
        (c.visitedUsers ++ [(c.store.entry a).userId]))
      refine ⟨fun hle => ?_, fun hlt => h2 (by simpa [Drained.visit] using hlt)⟩
      obtain ⟨c', hrun, hstore, hmax, hvisited⟩ := h1 (by simpa [Drained.visit] using hle)
      refine ⟨c', hrun, hstore, hmax, ?_⟩
      rw [hvisited]
      simp [Drained.visit]

end Traversal

end Delegation
