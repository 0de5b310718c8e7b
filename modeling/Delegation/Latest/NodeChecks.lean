import Delegation.Latest.Acceptance
import Delegation.Latest.UnbondAll

/-!
# What the loops over nodes refuse

The endpoints that take a list of BLS keys go through it key by key, and change the states of the
nodes as they go, so the checks of a key depend on the keys before it. Here the checks are stated of
the registry as it was before the loop: a key has to be known, its node in the state that the
endpoint asks for, and the key not listed before (`NodeStore.Advanced.passes_iff`), because the
nodes of the earlier keys have left that state. Where the loop collects ids there is room for
`MAX_NODES_PER_OPERATION` of them.
-/

namespace Delegation

open Outcome Ledger

/-- Room in a vector of node ids that has those of `done`. -/
def NodeIndexArrayVec.room (done : List BLSKey) : Bool × Panic :=
  (decide (done.length < maxNodesPerOperation), .capacity)

namespace Ledger

variable {α : Type} {b b' : Prop} [Decidable b] [Decidable b'] {msg : String} {R : Panic → Prop}
  {checks : List (Bool × Panic)}

theorem required_congr (hiff : b ↔ b') : required b msg = required b' msg := by
  simp only [required, hiff]

/-- A `require!`, with its condition in other words. -/
theorem decides_require_iff {f : Unit → Exec α} (hiff : b ↔ b')
    (hf : b → Decides R checks (f ())) :
    Decides R (required b' msg :: checks) (require b msg >>= f) := by
  rw [← required_congr hiff]
  exact decides_require hf

/-- A `require!` at the end of a computation. -/
theorem decides_require_last (hiff : b ↔ b') : Decides R [required b' msg] (require b msg) := by
  unfold require
  split_ifs with hb
  · exact decides_of_pos (hiff.mp hb) rfl
  · exact decides_of_neg (mt hiff.mpr hb)

end Ledger

namespace NodeStore

variable {s s' : NodeStore} {key : BLSKey} {done blsKeys : List BLSKey} {R : Panic → Prop}
  {p : NodeState → Prop} {next : NodeState → NodeState}

/-! ### Nodes that change their states one by one -/

/-- The nodes of the keys `done` have gone from states with `p` to those that `next` says. -/
structure Advanced (s : NodeStore) (p : NodeState → Prop) (next : NodeState → NodeState)
    (done : List BLSKey) (s' : NodeStore) : Prop where
  nodeBlsToId : s'.nodeBlsToId = s.nodeBlsToId
  passed : ∀ key ∈ done, p (s.nodeState (s.nodeBlsToId key))
  moved : ∀ key ∈ done,
    s'.nodeState (s.nodeBlsToId key) = next (s.nodeState (s.nodeBlsToId key))
  kept : ∀ n, (∀ key ∈ done, s.nodeBlsToId key ≠ n) → s'.nodeState n = s.nodeState n

theorem advanced_nil : s.Advanced p next [] s :=
  ⟨rfl, by simp, by simp, fun _ _ => rfl⟩

/-- A key that is not listed has another id. -/
theorem Numbered.ne_of_not_mem {last : ℕ} (h : s.Numbered last) (hkey : s.nodeBlsToId key ≠ 0)
    (hnot : key ∉ done) : ∀ k ∈ done, s.nodeBlsToId k ≠ s.nodeBlsToId key := by
  intro k hk heq
  exact hnot (h.numbering.injective _ _ (heq ▸ hkey) heq ▸ hk)

/-- **What a later key is checked for**, in terms of the registry before the loop. -/
theorem Advanced.passes_iff (h : s.Advanced p next done s') (hs : s.Numbered s.numNodes)
    (hp : ∀ st, p st → ¬ p (next st)) (hkey : s'.nodeBlsToId key ≠ 0) :
    p (s'.nodeState (s'.nodeBlsToId key)) ↔
      p (s.nodeState (s.nodeBlsToId key)) ∧ done.contains key = false := by
  rw [h.nodeBlsToId] at hkey ⊢
  by_cases hmem : key ∈ done
  · rw [h.moved key hmem]
    exact iff_of_false (hp _ (h.passed key hmem)) (by simp [hmem])
  · rw [h.kept _ (hs.ne_of_not_mem hkey hmem)]
    exact (and_iff_left (by simpa using hmem)).symm

/-- One more node. -/
theorem Advanced.push (h : s.Advanced p next done s') (hs : s.Numbered s.numNodes)
    (hp : ∀ st, p st → ¬ p (next st)) (hkey : s'.nodeBlsToId key ≠ 0)
    (hst : p (s'.nodeState (s'.nodeBlsToId key))) :
    s.Advanced p next (done ++ [key]) (s'.setNodeState (s'.nodeBlsToId key)
      (next (s'.nodeState (s'.nodeBlsToId key)))) := by
  obtain ⟨hpassed, hnot⟩ := (h.passes_iff hs hp hkey).mp hst
  rw [h.nodeBlsToId] at hkey ⊢
  have hne := hs.ne_of_not_mem hkey (by simpa using hnot)
  refine ⟨h.nodeBlsToId, ?_, ?_, fun n hn => ?_⟩
  · exact List.forall_mem_append.mpr ⟨h.passed, List.forall_mem_singleton.mpr hpassed⟩
  · refine List.forall_mem_append.mpr ⟨fun k hk => ?_, List.forall_mem_singleton.mpr ?_⟩
    · rw [setNodeState_nodeState, Function.update_of_ne (hne k hk), h.moved k hk]
    · rw [setNodeState_nodeState, Function.update_self, h.kept _ hne]
  · have hlast := hn key (List.mem_append_right _ (List.mem_singleton_self _))
    rw [setNodeState_nodeState, Function.update_of_ne hlast.symm]
    exact h.kept n fun k hk => hn k (List.mem_append_left _ hk)

/-! ### The loops -/

/-- The vector of ids has room, or the loop ends. -/
theorem push_decides {v : NodeIndexArrayVec} (hlen : v.ids.length = done.length) (n : ℕ) :
    Decides R [NodeIndexArrayVec.room done] (v.push n) := by
  simp only [NodeIndexArrayVec.push, NodeIndexArrayVec.room, ← hlen]
  split_ifs with hlt
  · simp [Decides, hlt]
  · exact .inl (by simp [hlt])

/-- A vector with one more id. -/
theorem length_push_spec {v : NodeIndexArrayVec} (hlen : v.ids.length = done.length) (n : ℕ) :
    Spec (v.push n) (fun v' => v'.ids.length = (done ++ [key]).length) fun _ => True := by
  refine Spec.of_forall_ok fun v' hv' => ?_
  rw [NodeIndexArrayVec.push_eq_ok.mp hv', List.length_append, List.length_append, hlen]
  rfl

/-- What `stakeNodes` checks of a key. -/
def stakeNodeChecks (s : NodeStore) (done : List BLSKey) (key : BLSKey) : List (Bool × Panic) :=
  [required (s.nodeBlsToId key ≠ 0) "unknown node provided",
    required (s.nodeState (s.nodeBlsToId key) = .inactive ∧ done.contains key = false)
      "node must be inactive",
    NodeIndexArrayVec.room done]

theorem prepareStakeNodes_decides (hs : s.Numbered s.numNodes) (blsKeys : List BLSKey) :
    Decides R (loopChecks s.stakeNodeChecks [] blsKeys)
      (blsKeys.foldlM prepareStakeNode (s, .new, [])) := by
  have hp : ∀ st : NodeState, st = .inactive → ¬ (.pendingActivation : NodeState) = .inactive :=
    fun _ _ => nofun
  refine Decides.foldlM (J := fun done (c : NodeStore × NodeIndexArrayVec × _) =>
    s.Advanced (· = .inactive) (fun _ => .pendingActivation) done c.1 ∧
      c.2.1.ids.length = done.length) ⟨advanced_nil, rfl⟩ fun done key c _ hc => ⟨?_, ?_⟩
  · obtain ⟨s', v, sigs⟩ := c
    obtain ⟨hadv, hlen⟩ := hc
    refine decides_require_iff (by rw [hadv.nodeBlsToId]) fun hid => ?_
    refine decides_require_iff (hadv.passes_iff hs hp hid) fun _ => ?_
    exact Decides.bind_work (Q := fun _ => True) (push_decides hlen _) fun _ _ => trivial
  · obtain ⟨s', v, sigs⟩ := c
    obtain ⟨hadv, hlen⟩ := hc
    refine Spec.bind (spec_require fun _ => trivial) fun _ hid =>
      Spec.bind (spec_require fun _ => trivial) fun _ hst => ?_
    exact Spec.bind (length_push_spec hlen _) fun v' hlen' =>
      ⟨hadv.push hs hp hid hst, hlen'⟩

/-- What the first loop of `unstake_nodes` checks of a key. -/
def pushNodeIdChecks (s : NodeStore) (done : List BLSKey) (key : BLSKey) : List (Bool × Panic) :=
  [required (s.nodeBlsToId key ≠ 0) "unknown node provided", NodeIndexArrayVec.room done]

theorem pushNodeIds_decides (s : NodeStore) (blsKeys : List BLSKey) :
    Decides R (loopChecks s.pushNodeIdChecks [] blsKeys) (blsKeys.foldlM s.pushNodeId .new) := by
  refine Decides.foldlM (J := fun done (v : NodeIndexArrayVec) => v.ids.length = done.length) rfl
    fun done key v _ hlen => ⟨?_, ?_⟩
  · exact decides_require_iff Iff.rfl fun _ => push_decides hlen _
  · exact Spec.bind (spec_require fun _ => trivial) fun _ _ => length_push_spec hlen _

/-- The ids that the first loop of `unstake_nodes` gathers. -/
theorem pushNodeIds_spec (s : NodeStore) (blsKeys : List BLSKey) :
    Spec (blsKeys.foldlM s.pushNodeId .new) (fun v => v.ids = blsKeys.map s.nodeBlsToId ∧
      ∀ key ∈ blsKeys, s.nodeBlsToId key ≠ 0) fun _ => True := by
  refine Spec.foldlM (J := fun done (v : NodeIndexArrayVec) => v.ids = done.map s.nodeBlsToId ∧
    ∀ key ∈ done, s.nodeBlsToId key ≠ 0) ⟨rfl, by simp⟩ fun done key v _ hv => ?_
  refine Spec.bind (spec_require fun _ => trivial) fun _ hid => Spec.of_forall_ok fun v' hv' => ?_
  constructor
  · rw [NodeIndexArrayVec.push_eq_ok.mp hv', hv.1, List.map_append]
    rfl
  · exact List.forall_mem_append.mpr ⟨hv.2, List.forall_mem_singleton.mpr hid⟩

/-- What the second loop of `unstake_nodes` checks of a key, once it is known. -/
def unstakeNodeChecks (s : NodeStore) (done : List BLSKey) (key : BLSKey) :
    List (Bool × Panic) :=
  [required (s.nodeState (s.nodeBlsToId key) = .active ∧ done.contains key = false)
    "node not active"]

theorem prepareUnstakeNodes_decides (hs : s.Numbered s.numNodes)
    (hknown : ∀ key ∈ blsKeys, s.nodeBlsToId key ≠ 0) :
    Decides R (loopChecks s.unstakeNodeChecks [] blsKeys)
      ((blsKeys.map s.nodeBlsToId).foldlM prepareUnstakeNode s) := by
  have hp : ∀ st : NodeState, st = .active → ¬ (.pendingDeactivation : NodeState) = .active :=
    fun _ _ => nofun
  rw [List.foldlM_map]
  refine Decides.foldlM (J := fun done s' =>
    s.Advanced (· = .active) (fun _ => .pendingDeactivation) done s') advanced_nil
    fun done key s' hkey hadv => ?_
  have hid := hknown key hkey
  rw [← hadv.nodeBlsToId] at hid ⊢
  refine ⟨decides_require_iff (hadv.passes_iff hs hp hid) fun _ => rfl, ?_⟩
  exact Spec.bind (spec_require fun _ => trivial) fun _ hst => hadv.push hs hp hid hst

/-- What `unBondNodes` checks of a key. -/
def unBondNodeChecks (s : NodeStore) (done : List BLSKey) (key : BLSKey) : List (Bool × Panic) :=
  [required (s.nodeBlsToId key ≠ 0) "unknown node provided",
    required ((s.nodeState (s.nodeBlsToId key)).inUnBondPeriod ∧ done.contains key = false)
      "node cannot be unbonded",
    NodeIndexArrayVec.room done]

theorem prepareNodeForUnbondIfPossible_of_state (s : NodeStore) (n : ℕ) :
    (s.prepareNodeForUnbondIfPossible n).2 = (s.nodeState n).inUnBondPeriod ∧
      ((s.nodeState n).inUnBondPeriod → (s.prepareNodeForUnbondIfPossible n).1 =
        s.setNodeState n (s.nodeState n).sentToUnbond) := by
  unfold prepareNodeForUnbondIfPossible
  cases s.nodeState n with
  | unBondPeriod started => exact ⟨rfl, fun _ => rfl⟩
  | _ => exact ⟨rfl, nofun⟩

theorem prepareUnbondNodes_decides (hs : s.Numbered s.numNodes) (blsKeys : List BLSKey) :
    Decides R (loopChecks s.unBondNodeChecks [] blsKeys)
      (blsKeys.foldlM prepareUnbondNode (s, .new)) := by
  have hp : ∀ st : NodeState, st.inUnBondPeriod = true →
      ¬ st.sentToUnbond.inUnBondPeriod = true := by
    intro st hst
    cases st with
    | unBondPeriod started => exact Bool.false_ne_true
    | _ => cases hst
  refine Decides.foldlM (J := fun done (c : NodeStore × NodeIndexArrayVec) =>
    s.Advanced (fun st => st.inUnBondPeriod = true) NodeState.sentToUnbond done c.1 ∧
      c.2.ids.length = done.length) ⟨advanced_nil, rfl⟩ fun done key c _ hc => ⟨?_, ?_⟩
  · obtain ⟨s', v⟩ := c
    obtain ⟨hadv, hlen⟩ := hc
    obtain ⟨hpossible, -⟩ := s'.prepareNodeForUnbondIfPossible_of_state (s'.nodeBlsToId key)
    refine decides_require_iff (by rw [hadv.nodeBlsToId]) fun hid => ?_
    have hpasses : (s'.prepareNodeForUnbondIfPossible (s'.nodeBlsToId key)).2 = true ↔
        (s.nodeState (s.nodeBlsToId key)).inUnBondPeriod = true ∧
          done.contains key = false := by
      rw [hpossible, hadv.passes_iff hs hp hid]
    refine decides_require_iff hpasses fun _ => ?_
    exact Decides.bind_work (Q := fun _ => True) (push_decides hlen _) fun _ _ => trivial
  · obtain ⟨s', v⟩ := c
    obtain ⟨hadv, hlen⟩ := hc
    obtain ⟨hpossible, hset⟩ := s'.prepareNodeForUnbondIfPossible_of_state (s'.nodeBlsToId key)
    refine Spec.bind (spec_require fun _ => trivial) fun _ hid =>
      Spec.bind (spec_require fun _ => trivial) fun _ hst => ?_
    have hpush := hadv.push hs hp hid (hpossible.symm.trans hst)
    rw [← hset (hpossible.symm.trans hst)] at hpush
    exact Spec.bind (length_push_spec hlen _) fun v' hlen' => ⟨hpush, hlen'⟩

/-- What `unBondAllPossibleNodes` checks: the vector has room for all nodes in the unbond period. -/
def unBondAllChecks (s : NodeStore) : List (Bool × Panic) :=
  [(decide (s.idsInUnBondPeriod.card ≤ maxNodesPerOperation), .capacity)]

theorem prepareUnbondAll_decides (s : NodeStore) :
    Decides R s.unBondAllChecks
      ((Contract.descendingIds s.numNodes).foldlM prepareUnbondIfPossible (s, .new, [])) := by
  refine (gathered_foldlM (nodup_descendingIds s.numNodes)).mono (fun r hr => ?_) fun e he => ?_
  · have hle := r.2.1.length_le
    rw [hr.ids, length_unbondable_descendingIds] at hle
    simp [unBondAllChecks, hle]
  · obtain ⟨rfl, hlt⟩ := he
    rw [length_unbondable_descendingIds] at hlt
    exact .inl (by simp [unBondAllChecks, hlt])

/-- What `forceNodeUnBondPeriod` checks of a key, listed before or not. -/
def forceUnbondPeriodChecks (s : NodeStore) (_ : List BLSKey) (key : BLSKey) :
    List (Bool × Panic) :=
  [required (s.nodeBlsToId key ≠ 0) "unknown node provided"]

theorem forceUnbondPeriods_decides (s : NodeStore) (blsKeys : List BLSKey) :
    Decides R (loopChecks s.forceUnbondPeriodChecks [] blsKeys)
      (blsKeys.foldlM forceUnbondPeriod s) := by
  refine Decides.foldlM (J := fun _ s' => s'.nodeBlsToId = s.nodeBlsToId) rfl
    fun _ key s' _ hs' => ⟨?_, ?_⟩
  · exact decides_require_iff (by rw [hs']) fun _ => rfl
  · exact Spec.bind (spec_require fun _ => trivial) fun _ _ => hs'

/-- What `unJailNodes` checks of a key, listed before or not. -/
def unjailNodeChecks (s : NodeStore) (_ : List BLSKey) (key : BLSKey) : List (Bool × Panic) :=
  [required (s.nodeBlsToId key ≠ 0) "unknown node provided",
    required (s.nodeState (s.nodeBlsToId key) = .active) "node must be active"]

theorem checkUnjailNodes_decides (s : NodeStore) (blsKeys : List BLSKey) :
    Decides R (loopChecks s.unjailNodeChecks [] blsKeys) (blsKeys.foldlM s.checkUnjailNode ()) :=
  Decides.foldlM (J := fun _ _ => True) trivial fun _ _ _ _ _ =>
    ⟨decides_require fun _ => decides_require_last Iff.rfl, Spec.of_forall_ok fun _ _ => trivial⟩

/-- What `removeNodes` checks of a key. -/
def removeNodeChecks (s : NodeStore) (done : List BLSKey) (key : BLSKey) : List (Bool × Panic) :=
  [required (s.nodeBlsToId key ≠ 0) "node not registered",
    required (s.nodeState (s.nodeBlsToId key) = .inactive ∧ done.contains key = false)
      "only inactive nodes can be removed"]

theorem removeNodes_decides (hs : s.Numbered s.numNodes) (blsKeys : List BLSKey) :
    Decides R (loopChecks s.removeNodeChecks [] blsKeys) (s.removeNodes blsKeys) := by
  have hp : ∀ st : NodeState, st = .inactive → ¬ (.removed : NodeState) = .inactive :=
    fun _ _ => nofun
  refine Decides.foldlM (J := fun done s' =>
    s.Advanced (· = .inactive) (fun _ => .removed) done s') advanced_nil
    fun done key s' _ hadv => ⟨?_, ?_⟩
  · refine decides_require_iff (by rw [hadv.nodeBlsToId]) fun hid => ?_
    exact decides_require_iff (hadv.passes_iff hs hp hid) fun _ => rfl
  · exact Spec.bind (spec_require fun _ => trivial) fun _ hid =>
      Spec.bind (spec_require fun _ => trivial) fun _ hst => hadv.push hs hp hid hst

/-- What `addNodes` checks of a key with its signature: it is not registered, or removed, and not
listed before. -/
def addNodeChecks (s : NodeStore) (done : List (BLSKey × BLSSignature))
    (pair : BLSKey × BLSSignature) : List (Bool × Panic) :=
  [required ((s.nodeBlsToId pair.1 = 0 ∨ s.nodeState (s.nodeBlsToId pair.1) = .removed) ∧
    (done.map Prod.fst).contains pair.1 = false) "node already registered"]

/-- Whether a key can be added now, in terms of the registry before the loop. -/
theorem Added.addable_iff {pairs : List (BLSKey × BLSSignature)} {c : NodeStore × ℕ}
    (h : Added s pairs c) (hs : s.Numbered s.numNodes) (key : BLSKey) :
    (c.1.nodeBlsToId key = 0 ∨ c.1.nodeState (c.1.nodeBlsToId key) = .removed) ↔
      (s.nodeBlsToId key = 0 ∨ s.nodeState (s.nodeBlsToId key) = .removed) ∧
        (pairs.map Prod.fst).contains key = false := by
  by_cases hmem : key ∈ pairs.map Prod.fst
  · -- it was added before, and is inactive
    have hlisted : (pairs.map Prod.fst).contains key = true := List.contains_iff_mem.mpr hmem
    obtain ⟨pair, hpair, rfl⟩ := List.mem_map.mp hmem
    obtain ⟨hid, hst, -⟩ := h.listed pair hpair
    rw [hst, hlisted]
    exact iff_of_false (fun hno => hno.elim hid nofun) fun hno => Bool.noConfusion hno.2
  · have hnot : ∀ pair ∈ pairs, pair.1 ≠ key := fun pair hpair heq =>
      hmem (List.mem_map.mpr ⟨pair, hpair, heq⟩)
    rw [and_iff_left (by simpa using hmem)]
    by_cases hold : s.nodeBlsToId key = 0
    · have hnew : c.1.nodeBlsToId key = 0 := by
        by_contra hne
        obtain ⟨pair, hpair, heq⟩ := h.mem_of_new hold hne
        exact hnot pair hpair heq
      exact iff_of_true (.inl hnew) (.inl hold)
    · have hkept := h.others _ (hs.numbering.le_last key) fun pair hpair heq =>
        hnot pair hpair (hs.numbering.injective _ _ (heq ▸ hold) heq)
      rw [h.ids.kept key hold, hkept.1]

theorem addNodes_decides (hs : s.Numbered s.numNodes) (pairs : List (BLSKey × BLSSignature)) :
    Decides R (loopChecks s.addNodeChecks [] pairs) (s.addNodes pairs) := by
  refine Decides.bind_work (Q := fun _ => True) (Decides.foldlM (J := fun done c => Added s done c)
    (added_nil hs) fun done pair c _ hc => ?_) fun _ _ => trivial
  obtain ⟨s', numNodes⟩ := c
  obtain ⟨key, sig⟩ := pair
  have haddable := hc.addable_iff hs key
  simp only [addNode]
  split_ifs with h0 hremoved
  · exact ⟨decides_of_pos (haddable.mp (.inl h0)) rfl, hc.new h0⟩
  · exact ⟨decides_of_pos (haddable.mp (.inr hremoved)) rfl, hc.back h0 hremoved⟩
  · exact ⟨decides_of_neg (mt haddable.mpr (not_or.mpr ⟨h0, hremoved⟩)), trivial⟩

end NodeStore

end Delegation
