import Delegation.Latest.NodeRegistry

/-!
# Unbonding all nodes at once

`unBondAllPossibleNodes` goes through all ids from the last one down and collects the nodes in the
unbond period, their ids in a vector of capacity `MAX_NODES_PER_OPERATION`, their keys in a list
without one. Its comment promises to call unbond for all of them. The vector is filled by `push`,
which panics when it is full, so what the endpoint does depends on their number: when they fit, the
loop gathers all of them (`NodeStore.gathered_foldlM`), and when they do not, the endpoint aborts.
-/

namespace Delegation

open Outcome

/-- The node is in the unbond period. -/
def NodeState.inUnBondPeriod : NodeState → Bool
  | .unBondPeriod _ => true
  | _ => false

/-- The state of a node after `prepare_node_for_unbond_if_possible`. -/
def NodeState.sentToUnbond : NodeState → NodeState
  | .unBondPeriod started => .pendingUnBond started
  | nodeState => nodeState

namespace NodeStore

variable {s : NodeStore} {n : ℕ}

/-- The registry with the nodes `ids` sent to unbond. -/
def sentToUnbond (s : NodeStore) (ids : List ℕ) : NodeStore :=
  { s with
    nodeState := fun n => if n ∈ ids then (s.nodeState n).sentToUnbond else s.nodeState n }

@[simp]
theorem sentToUnbond_nil : s.sentToUnbond [] = s := by simp [sentToUnbond]

/-- Of the ids `ids`, those of the nodes in the unbond period. -/
def unbondable (s : NodeStore) (ids : List ℕ) : List ℕ :=
  ids.filter fun n => (s.nodeState n).inUnBondPeriod

/-- One more node is looked at. -/
theorem prepareNodeForUnbondIfPossible_eq {done : List ℕ} (hn : n ∉ done) :
    (s.sentToUnbond done).prepareNodeForUnbondIfPossible n =
      (s.sentToUnbond (done ++ [n]), (s.nodeState n).inUnBondPeriod) := by
  have hstate : (s.sentToUnbond done).nodeState n = s.nodeState n := if_neg hn
  have hnext : (s.sentToUnbond done).setNodeState n (s.nodeState n).sentToUnbond =
      s.sentToUnbond (done ++ [n]) := by
    simp only [setNodeState, sentToUnbond, mk.injEq, true_and]
    funext m
    by_cases hm : m = n
    · simp [hm]
    · simp [hm]
  unfold prepareNodeForUnbondIfPossible
  rw [hstate, ← hnext]
  cases hst : s.nodeState n with
  | unBondPeriod started => rfl
  | _ =>
    simp only [NodeState.inUnBondPeriod, NodeState.sentToUnbond, ← hst, ← hstate]
    simp [setNodeState]

/-- What the loop of `unbond_all_possible_nodes` has collected after the nodes `done`. -/
structure Gathered (s : NodeStore) (done : List ℕ)
    (c : NodeStore × NodeIndexArrayVec × List BLSKey) : Prop where
  nodes : c.1 = s.sentToUnbond done
  ids : c.2.1.ids = s.unbondable done
  keys : c.2.2 = (s.unbondable done).map s.nodeIdToBls

/-- **The loop of `unbond_all_possible_nodes`** collects the nodes in the unbond period, and aborts
only when they are more than fit. -/
theorem gathered_foldlM {ids : List ℕ} (hnodup : ids.Nodup) :
    Spec (ids.foldlM prepareUnbondIfPossible (s, .new, [])) (Gathered s ids)
      (fun e => e = .capacity ∧ maxNodesPerOperation < (s.unbondable ids).length) := by
  refine Spec.foldlM_split (J := fun done c => Gathered s done c)
    ⟨sentToUnbond_nil.symm, rfl, rfl⟩ fun done n rest c hids hc => ?_
  obtain ⟨nodes, v, keys⟩ := c
  obtain ⟨rfl, hv, rfl⟩ := hc
  have hn : n ∉ done := by
    rw [← hids, List.nodup_append] at hnodup
    exact fun hmem => hnodup.2.2 n hmem n List.mem_cons_self rfl
  simp only [prepareUnbondIfPossible, prepareNodeForUnbondIfPossible_eq hn]
  cases hst : (s.nodeState n).inUnBondPeriod with
  | false =>
    have hsame : s.unbondable (done ++ [n]) = s.unbondable done := by
      simp [unbondable, hst]
    exact ⟨rfl, by rw [hsame]; exact hv, by rw [hsame]⟩
  | true =>
    have hnext : s.unbondable (done ++ [n]) = s.unbondable done ++ [n] := by
      simp [unbondable, hst]
    rw [if_pos rfl]
    by_cases hlen : v.ids.length < maxNodesPerOperation
    · simp only [NodeIndexArrayVec.push, dif_pos hlen, ok_bind]
      refine ⟨rfl, ?_, ?_⟩
      · rw [hnext, ← hv]
      · rw [hnext, List.map_append]
        rfl
    · -- the vector is full, and this node is one more
      simp only [NodeIndexArrayVec.push, dif_neg hlen, error_bind]
      have hall : s.unbondable ids = s.unbondable done ++ n :: s.unbondable rest := by
        simp [← hids, unbondable, hst]
      refine ⟨rfl, ?_⟩
      rw [hall, List.length_append, List.length_cons, ← hv]
      simp only
      omega

/-- The registered nodes in the unbond period. -/
def idsInUnBondPeriod (s : NodeStore) : Finset ℕ :=
  (Finset.Icc 1 s.numNodes).filter fun n => (s.nodeState n).inUnBondPeriod

theorem mem_idsInUnBondPeriod :
    n ∈ s.idsInUnBondPeriod ↔ (n ≠ 0 ∧ n ≤ s.numNodes) ∧ (s.nodeState n).inUnBondPeriod := by
  rw [idsInUnBondPeriod, Finset.mem_filter, Finset.mem_Icc, Nat.one_le_iff_ne_zero]

theorem nodup_descendingIds (bound : ℕ) : (Contract.descendingIds bound).Nodup := by
  induction bound with
  | zero => exact List.nodup_nil
  | succ bound ih =>
    refine List.nodup_cons.mpr ⟨fun hmem => ?_, ih⟩
    have := (mem_descendingIds.mp hmem).2
    omega

/-- The ids that the loop gathers. -/
theorem mem_unbondable_descendingIds :
    n ∈ s.unbondable (Contract.descendingIds s.numNodes) ↔ n ∈ s.idsInUnBondPeriod := by
  rw [unbondable, List.mem_filter, mem_descendingIds, mem_idsInUnBondPeriod]

theorem nodup_unbondable_descendingIds :
    (s.unbondable (Contract.descendingIds s.numNodes)).Nodup :=
  (nodup_descendingIds _).filter _

theorem length_unbondable_descendingIds :
    (s.unbondable (Contract.descendingIds s.numNodes)).length = s.idsInUnBondPeriod.card := by
  rw [← List.toFinset_card_of_nodup nodup_unbondable_descendingIds]
  congr 1
  ext n
  rw [List.mem_toFinset, mem_unbondable_descendingIds]

/-- The other nodes are looked at, and stay as they are. -/
theorem sentToUnbond_unbondable (ids : List ℕ) :
    s.sentToUnbond (s.unbondable ids) = s.sentToUnbond ids := by
  simp only [sentToUnbond, mk.injEq, true_and]
  funext n
  by_cases hn : n ∈ ids
  · cases hst : s.nodeState n <;>
      simp [unbondable, hn, hst, NodeState.inUnBondPeriod, NodeState.sentToUnbond]
  · simp [unbondable, hn]

end NodeStore

namespace Contract

open NodeStore

variable {c c' : Contract} {env : Env}

/-- The endpoint has sent the nodes of `nodeIds` to unbond, with the keys `blsKeys`. -/
structure SendsToUnbond (c c' : Contract) (issued : Option AsyncCall) (nodeIds : NodeIndexArrayVec)
    (blsKeys : List BLSKey) : Prop where
  issued_eq : issued = some ⟨c.ledger.auctionAddr, .unBondNodes blsKeys, 0,
    some ⟨.auctionUnbond, nodeIds⟩⟩
  length_eq : blsKeys.length = nodeIds.ids.length
  aligned : ∀ (i : ℕ) key, blsKeys[i]? = some key →
    nodeIds.ids[i]? = some (c.nodes.nodeBlsToId key)
  nodup : nodeIds.ids.Nodup
  mem_iff : ∀ n, n ∈ nodeIds.ids ↔ n ∈ c.nodes.idsInUnBondPeriod
  result_eq : c' = { c with nodes := c.nodes.sentToUnbond nodeIds.ids }

/-- What the comment of `unBondAllPossibleNodes` says: it calls unbond for all nodes in the unbond
period, and nothing happens if there are none. -/
def UnbondsAll (c : Contract) (env : Env) : Prop :=
  ∃ c' issued, c.unBondAllPossibleNodes env = .ok (c', issued) ∧
    (c.nodes.idsInUnBondPeriod = ∅ → c' = c ∧ issued = none) ∧
    (c.nodes.idsInUnBondPeriod.Nonempty →
      ∃ nodeIds blsKeys, c.SendsToUnbond c' issued nodeIds blsKeys)

/-- The endpoint, once its checks have passed. -/
theorem unBondAllPossibleNodes_eq (howner : env.caller = c.ledger.owner)
    (hop : c.ledger.isGlobalOpInProgress = false) :
    c.unBondAllPossibleNodes env = (do
      let (nodes, nodeIds, blsKeys) ← (descendingIds c.nodes.numNodes).foldlM
        prepareUnbondIfPossible (c.nodes, .new, [])
      if nodeIds.ids = [] then return ({ c with nodes := nodes }, none)
      else
        return ({ c with nodes := nodes }, some ⟨c.ledger.auctionAddr, .unBondNodes blsKeys, 0,
          some ⟨.auctionUnbond, nodeIds⟩⟩)) := by
  simp [unBondAllPossibleNodes, Ledger.onlyOwner, requireNoGlobalOp, howner, hop, require,
    callAuction, sendAsync]

/-- Nothing was gathered when there was nothing to gather. -/
theorem ids_eq_nil_iff {r : NodeStore × NodeIndexArrayVec × List BLSKey}
    (hr : Gathered c.nodes (descendingIds c.nodes.numNodes) r) :
    r.2.1.ids = [] ↔ c.nodes.idsInUnBondPeriod = ∅ := by
  rw [hr.ids, List.eq_nil_iff_forall_not_mem, Finset.eq_empty_iff_forall_notMem]
  exact forall_congr' fun n => not_congr mem_unbondable_descendingIds

/-- What was gathered is what the call has to be about. -/
theorem sendsToUnbond_of_gathered (hs : c.nodes.Numbered c.nodes.numNodes)
    {r : NodeStore × NodeIndexArrayVec × List BLSKey}
    (hr : Gathered c.nodes (descendingIds c.nodes.numNodes) r) :
    c.SendsToUnbond { c with nodes := r.1 } (some ⟨c.ledger.auctionAddr, .unBondNodes r.2.2, 0,
      some ⟨.auctionUnbond, r.2.1⟩⟩) r.2.1 r.2.2 where
  issued_eq := rfl
  length_eq := by rw [hr.keys, hr.ids, List.length_map]
  aligned i key hi := by
    rw [hr.keys, List.getElem?_map, ← hr.ids, Option.map_eq_some_iff] at hi
    obtain ⟨n, hn, rfl⟩ := hi
    have hmem := List.mem_of_getElem? hn
    rw [hr.ids, mem_unbondable_descendingIds, mem_idsInUnBondPeriod] at hmem
    rw [hn, hs.id_of_key hmem.1.1 hmem.1.2]
  nodup := by
    rw [hr.ids]
    exact nodup_unbondable_descendingIds
  mem_iff n := by
    rw [hr.ids]
    exact mem_unbondable_descendingIds
  result_eq := by rw [hr.nodes, hr.ids, sentToUnbond_unbondable]

/-- **`unBondAllPossibleNodes` and large registries.** For any registry, with no global operation in
progress, the endpoint does for the owner what its comment says exactly when no more nodes are in
the unbond period than `MAX_NODES_PER_OPERATION`. -/
theorem unbondsAll_iff (hs : c.nodes.Numbered c.nodes.numNodes)
    (howner : env.caller = c.ledger.owner) (hop : c.ledger.isGlobalOpInProgress = false) :
    c.UnbondsAll env ↔ c.nodes.idsInUnBondPeriod.card ≤ maxNodesPerOperation := by
  have hloop := gathered_foldlM (s := c.nodes) (nodup_descendingIds c.nodes.numNodes)
  rw [UnbondsAll, unBondAllPossibleNodes_eq howner hop]
  rcases hfold : (descendingIds c.nodes.numNodes).foldlM prepareUnbondIfPossible
    (c.nodes, .new, []) with e | r
  · -- the loop aborts, because there are too many
    have hmore := (hloop.of_error hfold).2
    rw [length_unbondable_descendingIds] at hmore
    refine iff_of_false ?_ hmore.not_ge
    rintro ⟨c', issued, hok, -⟩
    cases hok
  · have hr := hloop.of_ok hfold
    have hle := r.2.1.length_le
    rw [hr.ids, length_unbondable_descendingIds] at hle
    refine iff_of_true ?_ hle
    rw [ok_bind]
    by_cases hnil : r.2.1.ids = []
    · have hempty := (ids_eq_nil_iff hr).mp hnil
      refine ⟨_, _, if_pos hnil, fun _ => ⟨?_, rfl⟩, fun hsome => absurd hempty hsome.ne_empty⟩
      rw [hr.nodes, ← sentToUnbond_unbondable, ← hr.ids, hnil, sentToUnbond_nil]
    · refine ⟨_, _, if_neg hnil, fun hempty => absurd ((ids_eq_nil_iff hr).mpr hempty) hnil,
        fun _ => ⟨_, _, sendsToUnbond_of_gathered hs hr⟩⟩

/-- A node that was unstaked in block 42 and one that the owner forced into the unbond period, out
of three: both are sent to unbond. -/
theorem unbondsAll_iff_two : ∃ w : World, Reachable (fun _ _ => True) w ∧
    w.contract.nodes.idsInUnBondPeriod = {1, 3} ∧ w.contract.UnbondsAll (.plain 1 0 9) ∧
    (w.contract.unBondAllPossibleNodes (.plain 1 0 9)).toOption.map (fun r =>
      ([1, 2, 3].map r.1.nodes.nodeState, r.2.map AsyncCall.request)) =
      some ([.pendingUnBond 42, .inactive, .pendingUnBond 0], some (.unBondNodes [7, 5])) := by
  let events : List Event :=
    [.transaction (.plain 1 0 9) (.modifyTotalDelegationCap 0),
      .transaction (.plain 1 0 9) (.addNodes [(5, 50), (6, 60), (7, 70)]),
      .transaction (.plain 1 0 9) (.stakeNodes 0 [5]), .answer 0 1 (.ok []),
      .transaction (.plain 1 0 9) (.unStakeNodes [5]), .answer 0 42 (.ok []),
      .transaction (.plain 1 0 9) (.forceNodeUnBondPeriod [7])]
  have hrun : ((World.deploy 1 0 2 0 0 0 0 0).bind (·.run events)).map (fun w =>
      ((w.contract.nodes.idsInUnBondPeriod, w.contract.ledger.owner,
        w.contract.ledger.isGlobalOpInProgress),
        (w.contract.unBondAllPossibleNodes (.plain 1 0 9)).toOption.map (fun r =>
          ([1, 2, 3].map r.1.nodes.nodeState, r.2.map AsyncCall.request)))) =
      some (({1, 3}, 1, false), some ([.pendingUnBond 42, .inactive, .pendingUnBond 0],
        some (.unBondNodes [7, 5]))) := by
    decide +kernel
  obtain ⟨w, hw, hobs⟩ := Option.map_eq_some_iff.mp hrun
  simp only [Prod.mk.injEq] at hobs
  obtain ⟨⟨hids, howner, hop⟩, hcall⟩ := hobs
  have hreach : Reachable (fun _ _ => True) w :=
    .run (fun _ h => World.initial_deploy h) (fun _ _ _ => trivial) hw
  have hcard : w.contract.nodes.idsInUnBondPeriod.card ≤ maxNodesPerOperation := by
    rw [hids]
    decide
  exact ⟨w, hreach, hids, (unbondsAll_iff (numbered_of_reachable hreach) howner.symm hop).mpr hcard,
    hcall⟩

/-- With 101 nodes in the unbond period the endpoint aborts. -/
theorem unbondsAll_of_many : ∃ w : World, Reachable (fun _ _ => True) w ∧
    w.contract.ledger.owner = 1 ∧ w.contract.ledger.isGlobalOpInProgress = false ∧
    w.contract.nodes.numNodes = 101 ∧
    w.contract.unBondAllPossibleNodes (.plain 1 0 9) = .error .capacity ∧
    ¬ w.contract.UnbondsAll (.plain 1 0 9) := by
  let blsKeys : List BLSKey := (List.range 101).map fun i => BitVec.ofNat 768 i
  let events : List Event :=
    [.transaction (.plain 1 0 9) (.addNodes (blsKeys.map fun blsKey => (blsKey, 0))),
      .transaction (.plain 1 0 9) (.forceNodeUnBondPeriod blsKeys)]
  have hrun : ((World.deploy 1 0 2 0 0 9 1 100).bind (·.run events)).map (fun w =>
      ((w.contract.ledger.owner, w.contract.ledger.isGlobalOpInProgress, w.contract.nodes.numNodes),
        (w.contract.unBondAllPossibleNodes (.plain 1 0 9)).map fun _ => ())) =
      some ((1, false, 101), .error .capacity) := by
    decide +kernel
  obtain ⟨w, hw, hobs⟩ := Option.map_eq_some_iff.mp hrun
  simp only [Prod.mk.injEq] at hobs
  obtain ⟨⟨howner, hop, hnum⟩, hcall⟩ := hobs
  have hpanic : w.contract.unBondAllPossibleNodes (.plain 1 0 9) = .error .capacity := by
    cases hr : w.contract.unBondAllPossibleNodes (.plain 1 0 9) with
    | error e =>
      rw [hr] at hcall
      exact congrArg _ (Except.error.inj hcall)
    | ok r =>
      rw [hr] at hcall
      cases hcall
  refine ⟨w, .run (fun _ h => World.initial_deploy h) (fun _ _ _ => trivial) hw, howner, hop, hnum,
    hpanic, ?_⟩
  rintro ⟨c', issued, hok, -⟩
  rw [hpanic] at hok
  cases hok

end Contract

end Delegation
