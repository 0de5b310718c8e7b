import Delegation.Node.Numbered

/-!
# The views of a node

What the contract tells about the node of a BLS key: its state, its signature, and the block in
which its unbond period began. A key that has never been added is reported as removed, so as far as
the state goes, adding a key for the first time is the same as adding it again
(`addNodes_getNodeState`).
-/

namespace Delegation

open Outcome

namespace NodeStore

/-- `getNodeSignature` -/
def getNodeSignature (s : NodeStore) (blsKey : BLSKey) : Option BLSSignature :=
  let nodeId := s.nodeBlsToId blsKey
  if nodeId = 0 then none else some (s.nodeSignature nodeId)

/-- `getNodeState` -/
def getNodeState (s : NodeStore) (blsKey : BLSKey) : NodeState :=
  let nodeId := s.nodeBlsToId blsKey
  if nodeId = 0 then .removed else s.nodeState nodeId

/-- `getNodeBlockNonceOfUnstake` -/
def getNodeBlockNonceOfUnstake (s : NodeStore) (blsKey : BLSKey) : Option UInt64 :=
  let nodeId := s.nodeBlsToId blsKey
  if nodeId = 0 then none
  else
    match s.nodeState nodeId with
    | .unBondPeriod started => some started
    | _ => none

variable {s s' : NodeStore} {key : BLSKey} {n : ℕ}

theorem getNodeState_of_unknown (h : s.nodeBlsToId key = 0) : s.getNodeState key = .removed :=
  if_pos h

theorem getNodeState_of_known (h : s.nodeBlsToId key ≠ 0) :
    s.getNodeState key = s.nodeState (s.nodeBlsToId key) := if_neg h

theorem getNodeBlockNonceOfUnstake_eq_some {started : UInt64} :
    s.getNodeBlockNonceOfUnstake key = some started ↔
      s.getNodeState key = .unBondPeriod started := by
  simp only [getNodeBlockNonceOfUnstake, getNodeState]
  split_ifs
  · simp
  · cases s.nodeState (s.nodeBlsToId key) <;> simp

theorem getNodeState_congr (hid : s'.nodeBlsToId = s.nodeBlsToId)
    (hstate : s.nodeBlsToId key ≠ 0 →
      s'.nodeState (s.nodeBlsToId key) = s.nodeState (s.nodeBlsToId key)) :
    s'.getNodeState key = s.getNodeState key := by
  simp only [getNodeState, hid]
  split_ifs with h
  · rfl
  · exact hstate h

/-- Signatures are part of the registration. -/
theorem getNodeSignature_congr (h : s'.registration = s.registration) :
    s'.getNodeSignature key = s.getNodeSignature key := by
  simp only [registration, Prod.mk.injEq] at h
  unfold getNodeSignature
  rw [h.2.1, h.2.2.2]

/-! ### Adding -/

variable {done : List (BLSKey × BLSSignature)} {c : NodeStore × ℕ}

theorem Added.getNodeState_of_mem (h : Added s done c) (hkey : key ∈ done.map Prod.fst) :
    c.1.getNodeState key = .inactive := by
  obtain ⟨pair, hpair, rfl⟩ := List.mem_map.mp hkey
  obtain ⟨hid, hstate, -⟩ := h.listed pair hpair
  rw [getNodeState_of_known hid, hstate]

/-- A key that is not listed stays unknown, or keeps its id, its state and its signature. -/
theorem Added.of_not_mem (h : Added s done c) (hs : s.Numbered s.numNodes)
    (hkey : key ∉ done.map Prod.fst) : c.1.getNodeState key = s.getNodeState key ∧
      c.1.getNodeSignature key = s.getNodeSignature key := by
  have hne : ∀ pair ∈ done, pair.1 ≠ key := fun pair hpair heq =>
    hkey (List.mem_map.mpr ⟨pair, hpair, heq⟩)
  simp only [getNodeState, getNodeSignature]
  by_cases hold : s.nodeBlsToId key = 0
  · have hnew : c.1.nodeBlsToId key = 0 := by
      by_contra hnew
      obtain ⟨pair, hpair, heq⟩ := h.mem_of_new hold hnew
      exact hne pair hpair heq
    simp [hold, hnew]
  · have hothers := h.others _ (hs.numbering.le_last key) fun pair hpair heq =>
      hne pair hpair (hs.numbering.injective _ _ (heq ▸ hold) heq)
    rw [h.ids.kept key hold, hothers.1, hothers.2]
    exact ⟨rfl, rfl⟩

/-- `addNodes` asks that the listed nodes are removed. -/
theorem addNodes_getNodeState (hs : s.Numbered s.numNodes) (pairs : List (BLSKey × BLSSignature)) :
    Spec (s.addNodes pairs) (fun _ => ∀ key ∈ pairs.map Prod.fst, s.getNodeState key = .removed)
      (fun _ => True) := by
  refine Spec.bind (Spec.foldlM (J := fun done c => Added s done c ∧
    ∀ key ∈ done.map Prod.fst, s.getNodeState key = .removed) ⟨added_nil hs, by simp⟩
    fun done pair c _ hc => ?_) fun c hc => hc.2
  obtain ⟨s₁, numNodes⟩ := c
  obtain ⟨key, sig⟩ := pair
  obtain ⟨hadded, hremoved⟩ := hc
  have hlast : s₁.getNodeState key = .removed →
      ∀ key' ∈ (done ++ [(key, sig)]).map Prod.fst, s.getNodeState key' = .removed := by
    intro hst key' hkey'
    simp only [List.map_append, List.map_singleton, List.mem_append, List.mem_singleton] at hkey'
    rcases hkey' with hkey' | rfl
    · exact hremoved key' hkey'
    · -- those that were added before are inactive
      have hnot : key' ∉ done.map Prod.fst := by
        intro hmem
        have hinactive := hadded.getNodeState_of_mem hmem
        rw [hst] at hinactive
        cases hinactive
      rw [← (hadded.of_not_mem hs hnot).1, hst]
  simp only [addNode]
  split_ifs with h0 hst
  · exact ⟨hadded.new h0, hlast (getNodeState_of_unknown h0)⟩
  · exact ⟨hadded.back h0 hst, hlast (by rw [getNodeState_of_known h0, hst])⟩
  · trivial

/-! ### Removing -/

/-- The states of the nodes after `remove_nodes`. -/
theorem RemovedAll.getNodeState_eq {done : List BLSKey} (h : RemovedAll s done s')
    (hs : s.Numbered s.numNodes) (key : BLSKey) :
    s'.getNodeState key = if key ∈ done then .removed else s.getNodeState key := by
  rw [h.eq]
  simp only [getNodeState]
  by_cases hkey : key ∈ done
  · simp [hkey, List.mem_map_of_mem hkey]
  · -- an id belongs to one key only
    have hnot : s.nodeBlsToId key ≠ 0 → s.nodeBlsToId key ∉ done.map s.nodeBlsToId := by
      intro hid hmem
      obtain ⟨key', hkey', heq⟩ := List.mem_map.mp hmem
      rw [hs.numbering.injective _ _ (heq ▸ hid) heq] at hkey'
      exact hkey hkey'
    rw [if_neg hkey]
    split_ifs with h0 hmem
    · rfl
    · exact absurd hmem (hnot h0)
    · rfl

/-- `removeNodes` asks that the listed nodes are inactive. -/
theorem removeNodes_getNodeState (s : NodeStore) (blsKeys : List BLSKey) :
    Spec (s.removeNodes blsKeys) (fun _ => ∀ key ∈ blsKeys, s.getNodeState key = .inactive)
      (fun _ => True) := by
  refine (Spec.foldlM (J := fun done s' => (∀ key ∈ done, s.getNodeState key = .inactive) ∧
    s'.nodeBlsToId = s.nodeBlsToId ∧
      ∀ n, s'.nodeState n = .inactive → s.nodeState n = .inactive) ⟨by simp, rfl, fun _ h => h⟩
    fun done key s₁ _ h₁ => ?_).imp fun _ h => h.1
  obtain ⟨hdone, hid, hstate⟩ := h₁
  refine Spec.bind (spec_require fun _ => trivial) fun _ hknown =>
    Spec.bind (spec_require fun _ => trivial) fun _ hinactive =>
      ⟨fun k hk => ?_, hid, fun n hn => ?_⟩
  · rcases List.mem_append.mp hk with hk | hk
    · exact hdone k hk
    · obtain rfl := List.mem_singleton.mp hk
      rw [hid] at hknown hinactive
      rw [getNodeState_of_known hknown]
      exact hstate _ hinactive
  · rw [setNodeState_nodeState, Function.update_apply] at hn
    split_ifs at hn
    exact hstate n hn

end NodeStore

end Delegation
