import Delegation.Lib.Numbering
import Delegation.Node.Registry

/-!
# The numbers of the nodes

A BLS key gets its id when it is first added, and keeps it for good: a node that is removed and
added again comes back under the old id. `add_nodes` counts the new ids in a local variable and
stores the count at the end, while it writes the tables as it goes; `Added` is what holds in the
middle of it.

`addNodes_added` and `removeNodes_removedAll` say what the two endpoints do to the registry. A key
that is listed twice makes either of them panic, because the second time it is not in the state that
is asked for.
-/

namespace Delegation

open Outcome

/-- `discriminant` -/
def NodeState.discriminant : NodeState → UInt8
  | .inactive => 0
  | .pendingActivation => 1
  | .activationFailed => 2
  | .active => 3
  | .pendingDeactivation => 4
  | .unBondPeriod _ => 5
  | .pendingUnBond _ => 6
  | .removed => 7

namespace NodeStore

/-- `getAllNodeStates` -/
def getAllNodeStates (s : NodeStore) : List (BLSKey × UInt8) :=
  (List.range' 1 s.numNodes).map fun i => (s.nodeIdToBls i, (s.nodeState i).discriminant)

variable {s s' : NodeStore} {last n : ℕ} {key : BLSKey}

/-! ### Keys and ids -/

/-- The ids are a numbering of the keys, and the table leads back to the keys. -/
structure Numbered (s : NodeStore) (last : ℕ) : Prop where
  numbering : Ids.Numbering s.nodeBlsToId last
  key_of_id : ∀ key, s.nodeBlsToId key ≠ 0 → s.nodeIdToBls (s.nodeBlsToId key) = key

theorem numbered_empty : empty.Numbered 0 := ⟨.empty, fun _ h => absurd rfl h⟩

theorem Numbered.id_of_key (h : s.Numbered last) (hn : n ≠ 0) (hle : n ≤ last) :
    s.nodeBlsToId (s.nodeIdToBls n) = n := by
  obtain ⟨key, rfl⟩ := h.numbering.surjective n hn hle
  rw [h.key_of_id key hn]

/-- The two tables are inverse to each other. -/
theorem Numbered.invOn (h : s.Numbered last) :
    Set.InvOn s.nodeIdToBls s.nodeBlsToId {key | s.nodeBlsToId key ≠ 0} (Set.Icc 1 last) :=
  ⟨fun key hkey => h.key_of_id key hkey, fun _ hn => h.id_of_key (by have := hn.1; omega) hn.2⟩

/-- **`getAllNodeStates`** lists every registered key once, with the state of its node. -/
theorem Numbered.getAllNodeStates (h : s.Numbered s.numNodes) :
    (s.getAllNodeStates.map Prod.fst).Nodup ∧
      ∀ key d, (key, d) ∈ s.getAllNodeStates ↔
        s.nodeBlsToId key ≠ 0 ∧ d = (s.nodeState (s.nodeBlsToId key)).discriminant := by
  constructor
  · rw [NodeStore.getAllNodeStates, List.map_map]
    refine List.Nodup.map_on (fun i hi j hj heq => ?_) (List.nodup_range' ..)
    rw [List.mem_range'_1] at hi hj
    -- the key of an id determines the id
    rw [← h.id_of_key (n := i) (by omega) (by omega), ← h.id_of_key (n := j) (by omega) (by omega)]
    exact congrArg s.nodeBlsToId heq
  · intro key d
    rw [NodeStore.getAllNodeStates, List.mem_map]
    constructor
    · rintro ⟨i, hi, heq⟩
      rw [List.mem_range'_1] at hi
      obtain ⟨rfl, rfl⟩ := Prod.mk.inj heq
      rw [h.id_of_key (by omega) (by omega)]
      exact ⟨by omega, rfl⟩
    · rintro ⟨hne, rfl⟩
      have hle := h.numbering.le_last key
      refine ⟨s.nodeBlsToId key, List.mem_range'_1.mpr ⟨by omega, by omega⟩, ?_⟩
      rw [h.key_of_id key hne]

/-! ### Adding -/

/-- What `add_nodes` has done to `s` after the nodes `done`. -/
structure Added (s : NodeStore) (done : List (BLSKey × BLSSignature)) (c : NodeStore × ℕ) :
    Prop where
  nodup : (done.map Prod.fst).Nodup
  numbered : c.1.Numbered c.2
  ids : Ids.Extends s.nodeBlsToId s.numNodes c.1.nodeBlsToId c.2
  newIds : ((done.map Prod.fst).filter fun key => s.nodeBlsToId key = 0).map c.1.nodeBlsToId =
    List.range' (s.numNodes + 1) (c.2 - s.numNodes)
  listed : ∀ pair ∈ done, c.1.nodeBlsToId pair.1 ≠ 0 ∧
    c.1.nodeState (c.1.nodeBlsToId pair.1) = .inactive ∧
    c.1.nodeSignature (c.1.nodeBlsToId pair.1) = pair.2
  others : ∀ n, n ≤ s.numNodes → (∀ pair ∈ done, s.nodeBlsToId pair.1 ≠ n) →
    c.1.nodeState n = s.nodeState n ∧ c.1.nodeSignature n = s.nodeSignature n

theorem added_nil (h : s.Numbered s.numNodes) : Added s [] (s, s.numNodes) where
  nodup := List.nodup_nil
  numbered := h
  ids := .refl _ _
  newIds := by simp
  listed _ hmem := absurd hmem List.not_mem_nil
  others _ _ _ := ⟨rfl, rfl⟩

variable {done : List (BLSKey × BLSSignature)} {c c' : NodeStore × ℕ} {sig : BLSSignature}

/-- A key that is known now and was not known at the start is one of those added. -/
theorem Added.mem_of_new (h : Added s done c) (hold : s.nodeBlsToId key = 0)
    (hnew : c.1.nodeBlsToId key ≠ 0) : ∃ pair ∈ done, pair.1 = key := by
  have hlt := h.ids.fresh key hold hnew
  have hle := h.numbered.numbering.le_last key
  have hmem : c.1.nodeBlsToId key ∈ List.range' (s.numNodes + 1) (c.2 - s.numNodes) :=
    List.mem_range'_1.mpr ⟨by omega, by omega⟩
  rw [← h.newIds, List.mem_map] at hmem
  obtain ⟨key', hkey', heq⟩ := hmem
  obtain ⟨pair, hpair, rfl⟩ := List.mem_map.mp (List.mem_filter.mp hkey').1
  exact ⟨pair, hpair, h.numbered.numbering.injective _ _ (heq ▸ hnew) heq⟩

/-- A key is added once. -/
theorem Added.nodup_concat (h : Added s done c) (hnew : ∀ pair ∈ done, pair.1 ≠ key) :
    ((done ++ [(key, sig)]).map Prod.fst).Nodup := by
  rw [List.map_append, List.map_singleton, ← List.concat_eq_append]
  refine h.nodup.concat fun hmem => ?_
  obtain ⟨pair, hpair, heq⟩ := List.mem_map.mp hmem
  exact hnew pair hpair heq

/-- An unknown key gets the next id. -/
theorem Added.new (h : Added s done c) (h0 : c.1.nodeBlsToId key = 0) :
    Added s (done ++ [(key, sig)])
      ({ c.1 with
        nodeBlsToId := Function.update c.1.nodeBlsToId key (c.2 + 1)
        nodeIdToBls := Function.update c.1.nodeIdToBls (c.2 + 1) key
        nodeState := Function.update c.1.nodeState (c.2 + 1) .inactive
        nodeSignature := Function.update c.1.nodeSignature (c.2 + 1) sig }, c.2 + 1) := by
  have hle := h.ids.last_le
  have hold : s.nodeBlsToId key = 0 := by
    by_contra hne
    exact hne ((h.ids.kept key hne).symm.trans h0)
  have hknown : ∀ k, c.1.nodeBlsToId k ≠ 0 → k ≠ key := by
    rintro k hk rfl
    exact hk h0
  have hlast : ∀ k, c.1.nodeBlsToId k ≠ c.2 + 1 := fun k => by
    have := h.numbered.numbering.le_last k
    omega
  refine ⟨h.nodup_concat fun pair hpair => hknown _ (h.listed pair hpair).1,
    ⟨h.numbered.numbering.register h0, fun k hk => ?_⟩, h.ids.trans (.register h0), ?_,
    fun pair hpair => ?_, fun n hn hnot => ?_⟩
  · rcases eq_or_ne k key with rfl | hne
    · simp
    · simp only [Function.update_of_ne hne] at hk ⊢
      rw [Function.update_of_ne (hlast k)]
      exact h.numbered.key_of_id k hk
  · have hmap : ((done.map Prod.fst).filter fun k => s.nodeBlsToId k = 0).map
        (Function.update c.1.nodeBlsToId key (c.2 + 1)) =
        ((done.map Prod.fst).filter fun k => s.nodeBlsToId k = 0).map c.1.nodeBlsToId := by
      refine List.map_congr_left fun k hk => Function.update_of_ne (hknown k ?_) _ _
      obtain ⟨pair, hpair, rfl⟩ := List.mem_map.mp (List.mem_filter.mp hk).1
      exact (h.listed pair hpair).1
    have hcount : c.2 + 1 - s.numNodes = c.2 - s.numNodes + 1 := by omega
    have hnext : s.numNodes + 1 + (c.2 - s.numNodes) = c.2 + 1 := by omega
    rw [List.map_append, List.filter_append, List.map_append, hmap, h.newIds, hcount,
      List.range'_1_concat, hnext]
    simp [hold]
  · rcases List.mem_append.mp hpair with hpair | hpair
    · obtain ⟨hid, hstate, hsig⟩ := h.listed pair hpair
      simp only [Function.update_of_ne (hknown _ hid), Function.update_of_ne (hlast _)]
      exact ⟨hid, hstate, hsig⟩
    · obtain rfl := List.mem_singleton.mp hpair
      simp
  · have hne : n ≠ c.2 + 1 := by omega
    simp only [Function.update_of_ne hne]
    exact h.others n hn fun pair hpair => hnot pair (List.mem_append_left _ hpair)

/-- A removed node comes back under its id. -/
theorem Added.back (h : Added s done c) (h0 : c.1.nodeBlsToId key ≠ 0)
    (hremoved : c.1.nodeState (c.1.nodeBlsToId key) = .removed) :
    Added s (done ++ [(key, sig)])
      ({ c.1 with
        nodeState := Function.update c.1.nodeState (c.1.nodeBlsToId key) .inactive
        nodeSignature := Function.update c.1.nodeSignature (c.1.nodeBlsToId key) sig }, c.2) := by
  -- it is none of those that were added before, which are inactive
  have hother : ∀ pair ∈ done, c.1.nodeBlsToId pair.1 ≠ c.1.nodeBlsToId key := by
    intro pair hpair heq
    have hinactive := (h.listed pair hpair).2.1
    rw [heq, hremoved] at hinactive
    cases hinactive
  have hold : s.nodeBlsToId key ≠ 0 := by
    intro hnone
    obtain ⟨pair, hpair, rfl⟩ := h.mem_of_new hnone h0
    exact hother pair hpair rfl
  refine ⟨h.nodup_concat fun pair hpair heq => hother pair hpair (by rw [heq]),
    ⟨h.numbered.numbering, h.numbered.key_of_id⟩, h.ids, ?_, fun pair hpair => ?_,
    fun n hn hnot => ?_⟩
  · rw [List.map_append, List.filter_append, List.map_append, h.newIds]
    simp [hold]
  · rcases List.mem_append.mp hpair with hpair | hpair
    · obtain ⟨hid, hstate, hsig⟩ := h.listed pair hpair
      simp only [Function.update_of_ne (hother pair hpair)]
      exact ⟨hid, hstate, hsig⟩
    · obtain rfl := List.mem_singleton.mp hpair
      simpa using h0
  · have hne : n ≠ c.1.nodeBlsToId key := by
      rintro rfl
      exact hnot _ (List.mem_append_right _ (List.mem_singleton_self _)) (h.ids.kept key hold).symm
    simp only [Function.update_of_ne hne]
    exact h.others n hn fun pair hpair => hnot pair (List.mem_append_left _ hpair)

/-- **`addNodes`**, when it does not panic. -/
theorem addNodes_added (h : s.Numbered s.numNodes) (pairs : List (BLSKey × BLSSignature)) :
    Spec (s.addNodes pairs) (fun s' => Added s pairs (s', s'.numNodes)) (fun _ => True) := by
  refine Spec.bind (Spec.foldlM (J := fun done c => Added s done c) (added_nil h)
    fun done pair c _ hc => ?_) fun c hc => ?_
  · obtain ⟨s₁, numNodes⟩ := c
    obtain ⟨key, sig⟩ := pair
    simp only [addNode]
    split_ifs with h0 hremoved
    · exact hc.new h0
    · exact hc.back h0 hremoved
    · trivial
  · exact ⟨hc.nodup, ⟨hc.numbered.numbering, hc.numbered.key_of_id⟩, hc.ids, hc.newIds, hc.listed,
      hc.others⟩

/-! ### Removing -/

/-- What `remove_nodes` has done to `s` after the keys `done`. -/
structure RemovedAll (s : NodeStore) (done : List BLSKey) (s' : NodeStore) : Prop where
  nodup : done.Nodup
  known : ∀ key ∈ done, s.nodeBlsToId key ≠ 0
  eq : s' = { s with
    nodeState := fun n => if n ∈ done.map s.nodeBlsToId then .removed else s.nodeState n }

theorem removedAll_nil : RemovedAll s [] s := ⟨List.nodup_nil, by simp, by simp⟩

/-- **`removeNodes`**, when it does not panic, changes nothing but the states of the listed nodes.
-/
theorem removeNodes_removedAll (s : NodeStore) (blsKeys : List BLSKey) :
    Spec (s.removeNodes blsKeys) (RemovedAll s blsKeys) (fun _ => True) := by
  refine Spec.foldlM (J := fun done s' => RemovedAll s done s') removedAll_nil
    fun done key s' _ hs' => ?_
  obtain ⟨hnodup, hknown, rfl⟩ := hs'
  refine Spec.bind (spec_require fun _ => trivial) fun _ hid =>
    Spec.bind (spec_require fun _ => trivial) fun _ hinactive => ⟨?_, fun k hk => ?_, ?_⟩
  · -- a key that was listed before is removed by now
    rw [← List.concat_eq_append]
    refine hnodup.concat fun hmem => ?_
    simp only [List.mem_map_of_mem hmem, if_true] at hinactive
    cases hinactive
  · rcases List.mem_append.mp hk with hk | hk
    · exact hknown k hk
    · obtain rfl := List.mem_singleton.mp hk
      exact hid
  · simp only [setNodeState, mk.injEq, true_and]
    funext n
    simp only [Function.update_apply, List.map_append, List.mem_append, List.map_singleton,
      List.mem_singleton]
    by_cases hn : n = s.nodeBlsToId key
    · simp [hn]
    · simp [hn]

/-! ### What the other endpoints leave alone -/

/-- What the registry knows about its nodes, but for their states. -/
def registration (s : NodeStore) : ℕ × (BLSKey → ℕ) × (ℕ → BLSKey) × (ℕ → BLSSignature) :=
  (s.numNodes, s.nodeBlsToId, s.nodeIdToBls, s.nodeSignature)

theorem Numbered.congr (h : s.Numbered s.numNodes) (heq : s'.registration = s.registration) :
    s'.Numbered s'.numNodes := by
  simp only [registration, Prod.mk.injEq] at heq
  obtain ⟨hnum, hid, hkey, -⟩ := heq
  exact ⟨by rw [hid, hnum]; exact h.numbering, by rw [hid, hkey]; exact h.key_of_id⟩

theorem registration_setNodeStates (ids : List ℕ) (st : NodeState) :
    (s.setNodeStates ids st).registration = s.registration := by
  unfold setNodeStates
  induction ids generalizing s with
  | nil => rfl
  | cons n ids ih => exact ih

end NodeStore

end Delegation
