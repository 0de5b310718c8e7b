import Delegation.Node.Config

/-!
# Properties of the node registry

A node that waits for a callback is in one of three pending states; `NodeState.pendingKind?` says
which call it waits for, `NodeState.toPending` how it got there and `NodeState.reverted` where it
came from. `NodeStore.Registry` is the invariant of the registry: the registered keys and the ids
`1..=num_nodes` correspond, and an id that is not registered is in the default state.

`splitNodeIdsByErr_spec` is the specification of `split_node_ids_by_err`: whatever list the other
contract answers with, the split never exceeds the capacity of its vectors, and it partitions the
nodes of the call into those whose key is reported with a status other than zero and the rest.
-/

namespace Delegation

open Outcome

/-- The three kinds of call whose callbacks finish an operation on nodes. -/
inductive CallbackKind
  | auctionStake
  | auctionUnstake
  | auctionUnbond
  deriving DecidableEq, Repr

namespace NodeState

/-- The kind of call that a node waits for. -/
def pendingKind? : NodeState → Option CallbackKind
  | .pendingActivation => some .auctionStake
  | .pendingDeactivation => some .auctionUnstake
  | .pendingUnBond _ => some .auctionUnbond
  | _ => none

/-- The state of a node for which a call of this kind has been sent. -/
def toPending (kind : CallbackKind) (nodeState : NodeState) : Option NodeState :=
  match kind, nodeState with
  | .auctionStake, .inactive => some .pendingActivation
  | .auctionUnstake, .active => some .pendingDeactivation
  | .auctionUnbond, .unBondPeriod started => some (.pendingUnBond started)
  | _, _ => none

/-- The state of a pending node before the call was sent. -/
def reverted : NodeState → NodeState
  | .pendingActivation => .inactive
  | .pendingDeactivation => .active
  | .pendingUnBond unbondStarted => .unBondPeriod unbondStarted
  | nodeState => nodeState

variable {kind : CallbackKind} {st st' : NodeState}

theorem pendingKind?_of_toPending (h : toPending kind st = some st') :
    st'.pendingKind? = some kind ∧ st.pendingKind? = none ∧ st'.reverted = st := by
  cases kind <;> cases st <;> simp only [toPending, Option.some.injEq, reduceCtorEq] at h <;>
    subst h <;> exact ⟨rfl, rfl, rfl⟩

/-- Reverting leaves the pending states. -/
@[simp]
theorem pendingKind?_reverted : st.reverted.pendingKind? = none := by cases st <;> rfl

end NodeState

namespace NodeIndexArrayVec

@[simp]
theorem new_ids : new.ids = [] := rfl

@[simp]
theorem push_eq_ok {v v' : NodeIndexArrayVec} {id : ℕ} :
    v.push id = .ok v' ↔ v'.ids = v.ids ++ [id] := by
  obtain ⟨ids, hle⟩ := v
  obtain ⟨ids', hle'⟩ := v'
  unfold push
  constructor
  · split_ifs with h
    · simp [eq_comm]
    · simp
  · intro heq
    have h : ids.length < maxNodesPerOperation := by
      simp only at heq
      rw [heq, List.length_append] at hle'
      simpa using hle'
    rw [dif_pos h]
    simpa using heq.symm

/-- Removing an element loses just that element. -/
theorem swapRemove_perm {v : NodeIndexArrayVec} {pos id : ℕ} (h : v.ids[pos]? = some id) :
    v.ids.Perm (id :: (v.swapRemove pos).ids) := by
  obtain ⟨ids, hle⟩ := v
  obtain ⟨hlt, hget⟩ := List.getElem?_eq_some_iff.mp h
  simp only at hlt hget h ⊢
  rcases List.eq_nil_or_concat ids with rfl | ⟨front, last, rfl⟩
  · simp at hlt
  · simp only [swapRemove, List.concat_eq_append, List.getLast?_append, List.getLast?_singleton,
      Option.some_or, Option.getD_some] at h hlt ⊢
    rcases Nat.lt_or_ge pos front.length with hp | hp
    · rw [List.set_append_left _ _ hp, List.dropLast_concat]
      rw [List.getElem?_append_left hp, List.getElem?_eq_getElem hp, Option.some.injEq] at h
      have hset := List.set_perm_cons_eraseIdx hp last
      have hcons := List.getElem_cons_eraseIdx_perm hp
      rw [h] at hcons
      exact ((List.perm_append_singleton _ _).trans (hcons.symm.cons last)).trans
        ((List.Perm.swap _ _ _).trans (hset.symm.cons id))
    · have hpos : pos = front.length := by
        simp only [List.length_append, List.length_singleton] at hlt
        omega
      subst hpos
      have hid : last = id := by simpa using h
      subst hid
      simp [List.perm_append_singleton]

end NodeIndexArrayVec

namespace NodeStore

variable {s s' : NodeStore}

theorem nodeState_setNodeStates (ids : List ℕ) (st : NodeState) (n : ℕ) :
    (s.setNodeStates ids st).nodeState n = if n ∈ ids then st else s.nodeState n := by
  unfold setNodeStates
  induction ids generalizing s with
  | nil => simp
  | cons id ids ih =>
    rw [List.foldl_cons, ih, setNodeState_nodeState, Function.update_apply]
    by_cases h1 : n = id <;> by_cases h2 : n ∈ ids <;> simp [h1, h2]

/-! ### The invariant of the registry -/

/-- Everything but the states of the nodes is the same. -/
structure SameKeys (s s' : NodeStore) : Prop where
  numNodes : s'.numNodes = s.numNodes
  nodeBlsToId : s'.nodeBlsToId = s.nodeBlsToId
  nodeIdToBls : s'.nodeIdToBls = s.nodeIdToBls

theorem SameKeys.rfl' : SameKeys s s := ⟨rfl, rfl, rfl⟩

theorem SameKeys.trans {s'' : NodeStore} (h : SameKeys s s') (h' : SameKeys s' s'') :
    SameKeys s s'' :=
  ⟨h'.1.trans h.1, h'.2.trans h.2, h'.3.trans h.3⟩

theorem sameKeys_setNodeState (n : ℕ) (st : NodeState) : SameKeys s (s.setNodeState n st) :=
  ⟨rfl, rfl, rfl⟩

theorem sameKeys_setNodeStates (ids : List ℕ) (st : NodeState) :
    SameKeys s (s.setNodeStates ids st) := by
  unfold setNodeStates
  induction ids generalizing s with
  | nil => exact .rfl'
  | cons id ids ih => exact (sameKeys_setNodeState id st).trans ih

/-- The registered keys and the ids `1..=bound` correspond, and the other ids are unused. -/
structure RegistryUpTo (s : NodeStore) (bound : ℕ) : Prop where
  id_le : ∀ key, s.nodeBlsToId key ≤ bound
  key_of_id : ∀ key, s.nodeBlsToId key ≠ 0 → s.nodeIdToBls (s.nodeBlsToId key) = key
  id_of_key : ∀ n, n ≠ 0 → n ≤ bound → s.nodeBlsToId (s.nodeIdToBls n) = n
  unused : ∀ n, n = 0 ∨ bound < n → s.nodeState n = .inactive

/-- The invariant of the registry. -/
def Registry (s : NodeStore) : Prop := s.RegistryUpTo s.numNodes

theorem registry_empty : empty.Registry :=
  ⟨fun _ => le_rfl, fun _ h => absurd rfl h, fun _ h h' => absurd (Nat.le_zero.mp h') h,
    fun _ _ => rfl⟩

/-- A key determines its id and the other way round. -/
theorem Registry.nodeBlsToId_eq_iff (h : s.Registry) {n : ℕ} (hn : n ≠ 0) (hle : n ≤ s.numNodes)
    {key : BLSKey} : s.nodeBlsToId key = n ↔ s.nodeIdToBls n = key := by
  constructor
  · rintro rfl
    exact h.key_of_id key hn
  · rintro rfl
    exact h.id_of_key n hn hle

/-- Changing the states of registered nodes keeps the invariant. -/
theorem Registry.of_sameKeys (h : s.Registry) (hk : SameKeys s s')
    (hst : ∀ n, n = 0 ∨ s.numNodes < n → s'.nodeState n = s.nodeState n) : s'.Registry where
  id_le key := by
    rw [hk.nodeBlsToId, hk.numNodes]
    exact h.id_le key
  key_of_id key hkey := by
    rw [hk.nodeBlsToId] at hkey ⊢
    rw [hk.nodeIdToBls]
    exact h.key_of_id key hkey
  id_of_key n hn hle := by
    rw [hk.numNodes] at hle
    rw [hk.nodeBlsToId, hk.nodeIdToBls]
    exact h.id_of_key n hn hle
  unused n hn := by
    rw [hk.numNodes] at hn
    rw [hst n hn]
    exact h.unused n hn

/-- A node that is in use is registered. -/
theorem Registry.mem_of_nodeState_ne (h : s.Registry) {n : ℕ} (hst : s.nodeState n ≠ .inactive) :
    n ≠ 0 ∧ n ≤ s.numNodes := by
  by_contra hcon
  exact hst (h.unused n (by omega))

/-- Only nodes that wait for no callback change, and they do not start to wait. -/
def Quiet (s s' : NodeStore) : Prop :=
  ∀ n, s'.nodeState n = s.nodeState n ∨
    (s.nodeState n).pendingKind? = none ∧ (s'.nodeState n).pendingKind? = none

theorem Quiet.trans {s'' : NodeStore} (h : Quiet s s') (h' : Quiet s' s'') : Quiet s s'' := by
  intro n
  rcases h n with heq | ⟨h1, h2⟩ <;> rcases h' n with heq' | ⟨h1', h2'⟩
  · exact .inl (heq'.trans heq)
  · exact .inr ⟨heq ▸ h1', h2'⟩
  · exact .inr ⟨h1, heq' ▸ h2⟩
  · exact .inr ⟨h1, h2'⟩

/-- `add_nodes` and `remove_nodes` change the state of one node at a time. -/
theorem quiet_update {n : ℕ} {st : NodeState}
    (hs' : s'.nodeState = Function.update s.nodeState n st)
    (hst : st.pendingKind? = none) (hn : (s.nodeState n).pendingKind? = none) : Quiet s s' := by
  intro m
  rw [hs', Function.update_apply]
  split_ifs with hm
  · subst hm
    exact .inr ⟨hn, hst⟩
  · exact .inl rfl

/-- One key of `addNodes`. -/
theorem addNode_spec (numNodes : ℕ) (h : s.RegistryUpTo numNodes) (pair : BLSKey × BLSSignature) :
    Spec (addNode (s, numNodes) pair)
      (fun c => c.1.RegistryUpTo c.2 ∧ Quiet s c.1) (fun _ => True) := by
  obtain ⟨key, sig⟩ := pair
  simp only [addNode]
  split_ifs with h0 hrem
  · -- an unknown key gets the next id
    have hfresh : s.nodeState (numNodes + 1) = .inactive := h.unused _ (.inr (by omega))
    refine ⟨⟨fun k => ?_, fun k hk => ?_, fun n hn hle => ?_, fun n hn => ?_⟩,
      quiet_update rfl rfl (by rw [hfresh]; rfl)⟩
    · simp only [Function.update_apply]
      have := h.id_le k
      split_ifs <;> omega
    · by_cases hkey : k = key
      · subst hkey
        simp
      · simp only [Function.update_apply, if_neg hkey] at hk ⊢
        have := h.id_le k
        rw [if_neg (by omega)]
        exact h.key_of_id k hk
    · simp only [Function.update_apply] at hle ⊢
      by_cases hlast : n = numNodes + 1
      · simp [hlast]
      · have hold := h.id_of_key n hn (by omega)
        have hne : s.nodeIdToBls n ≠ key := by
          rintro rfl
          exact hn (hold.symm.trans h0)
        rw [if_neg hlast, if_neg hne]
        exact hold
    · simp only [Function.update_apply]
      split_ifs with hlast
      · rfl
      · exact h.unused n (by omega)
  · -- a removed node comes back
    refine ⟨⟨h.id_le, h.key_of_id, h.id_of_key, fun n hn => ?_⟩,
      quiet_update rfl rfl (by rw [hrem]; rfl)⟩
    simp only [Function.update_apply]
    split_ifs with heq
    · rfl
    · exact h.unused n hn
  · trivial

/-- `addNodes` keeps the registry and leaves pending nodes alone. -/
theorem Registry.addNodes (h : s.Registry) (pairs : List (BLSKey × BLSSignature)) :
    Spec (s.addNodes pairs) (fun s' => s'.Registry ∧ Quiet s s') (fun _ => True) := by
  refine Spec.bind (Spec.foldlM (J := fun _ c => c.1.RegistryUpTo c.2 ∧ Quiet s c.1)
    ⟨h, fun _ => .inl rfl⟩ fun _ pair c _ hc => ?_) fun c hc => ?_
  · exact (addNode_spec c.2 hc.1 pair).imp fun c' hc' => ⟨hc'.1, hc.2.trans hc'.2⟩
  · exact ⟨⟨hc.1.id_le, hc.1.key_of_id, hc.1.id_of_key, hc.1.unused⟩, hc.2⟩

/-- `removeNodes` keeps the registry and leaves pending nodes alone. -/
theorem Registry.removeNodes (h : s.Registry) (keys : List BLSKey) :
    Spec (s.removeNodes keys) (fun s' => s'.Registry ∧ Quiet s s') (fun _ => True) := by
  refine Spec.foldlM (J := fun _ s' => s'.Registry ∧ Quiet s s') ⟨h, fun _ => .inl rfl⟩
    fun _ key s' _ hs' => ?_
  refine Spec.bind (spec_require fun _ => trivial) fun _ hid =>
    Spec.bind (spec_require fun _ => trivial) fun _ hst =>
      ⟨hs'.1.of_sameKeys (sameKeys_setNodeState _ _) fun n hn => ?_,
        hs'.2.trans (quiet_update rfl rfl (by rw [hst]; rfl))⟩
  have := hs'.1.id_le key
  rw [setNodeState_nodeState, Function.update_of_ne (by omega)]

/-! ### Splitting the nodes of a call by the answer -/

/-- The list reports the node with a status other than zero. -/
def Reported (s : NodeStore) (args : List (BLSKey × UInt32)) (n : ℕ) : Prop :=
  ∃ arg ∈ args, arg.2 ≠ 0 ∧ s.nodeBlsToId arg.1 = n

/-- The nodes of a call after the reports `args`: those not reported and those that failed. -/
structure SplitBy (s : NodeStore) (v : NodeIndexArrayVec) (args : List (BLSKey × UInt32))
    (r : NodeIndexArrayVec × NodeIndexArrayVec) : Prop where
  perm : (r.1.ids ++ r.2.ids).Perm v.ids
  mem_failed : ∀ n ∈ v.ids, n ∈ r.2.ids ↔ s.Reported args n

/-- **The split is total and is the partition by `Reported`.** -/
theorem splitNodeIdsByErr_spec (s : NodeStore) (v : NodeIndexArrayVec)
    (args : List (BLSKey × UInt32)) :
    Spec (s.splitNodeIdsByErr v args) (s.SplitBy v args) (fun _ => False) := by
  refine Spec.foldlM (J := s.SplitBy v) ⟨by simp, by simp [Reported]⟩ fun done arg r _ hr => ?_
  obtain ⟨hperm, hrep⟩ := hr
  obtain ⟨key, status⟩ := arg
  -- only a nonzero status can report a node that was not reported before
  have happ : ∀ n, s.Reported (done ++ [(key, status)]) n ↔
      s.Reported done n ∨ status ≠ 0 ∧ s.nodeBlsToId key = n := by
    intro n
    simp only [Reported, List.mem_append, List.mem_singleton, or_and_right, exists_or,
      exists_eq_left]
  simp only [splitOneByErr]
  split_ifs with hz
  · refine ⟨hperm, fun n hn => ?_⟩
    rw [hrep n hn, happ]
    simp [hz]
  cases hpos : r.1.ids.findIdx? (· == s.nodeBlsToId key) with
  | none =>
    refine ⟨hperm, fun n hn => ?_⟩
    rw [hrep n hn, happ]
    refine ⟨Or.inl, ?_⟩
    rintro (h | ⟨-, rfl⟩)
    · exact h
    · -- a node of the call that is not among the rest has failed before
      have hnot : s.nodeBlsToId key ∉ r.1.ids := by
        intro hmem
        have := List.findIdx?_eq_none_iff.mp hpos _ hmem
        simp at this
      have := (List.mem_append.mp (hperm.symm.subset hn)).resolve_left hnot
      exact (hrep _ hn).mp this
  | some pos =>
    have hget : r.1.ids[pos]? = some (s.nodeBlsToId key) := by
      obtain ⟨hlt, hp, -⟩ := List.findIdx?_eq_some_iff_getElem.mp hpos
      rw [List.getElem?_eq_getElem hlt, Option.some.injEq]
      simpa using hp
    have hswap := NodeIndexArrayVec.swapRemove_perm hget
    have hlen : r.2.ids.length < maxNodesPerOperation := by
      have h1 := hperm.length_eq
      have h2 := hswap.length_eq
      have h3 := v.length_le
      simp only [List.length_append, List.length_cons] at h1 h2
      omega
    simp only [NodeIndexArrayVec.push, dif_pos hlen, ok_bind, pure_eq_ok]
    refine ⟨?_, fun n hn => ?_⟩
    · refine List.Perm.trans ?_ hperm
      rw [← List.append_assoc]
      refine (List.perm_append_singleton _ _).trans ?_
      rw [← List.cons_append]
      exact hswap.symm.append_right _
    · rw [happ, ← hrep n hn]
      simp [hz, eq_comm]

end NodeStore

end Delegation
