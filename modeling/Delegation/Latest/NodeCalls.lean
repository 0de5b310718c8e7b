import Delegation.Latest.Administration

/-!
# Nodes and the calls in flight

Several calls to the auction contract can be in flight at once, other endpoints run in between, and
the answers come in any order with any content. `NodesFollowCalls` is what holds throughout: the
kinds of the calls in flight that mention a node are exactly what its state says it waits for. So a
node is pending when its id occurs in one call in flight, once, and the call has the matching kind.

Every endpoint either sends a call for nodes that waited for nothing (`Prepared`) or leaves the
waiting nodes alone (`Quiet`), except `forceNodeUnBondPeriod`, which overwrites any state.
-/

namespace Delegation

open Outcome

/-- The state of a node after a successful call. -/
def CallbackKind.success (blockNonce : UInt64) : CallbackKind → NodeState
  | .auctionStake => .active
  | .auctionUnstake => .unBondPeriod blockNonce
  | .auctionUnbond => .inactive

@[simp]
theorem CallbackKind.pendingKind?_success (kind : CallbackKind) (blockNonce : UInt64) :
    (kind.success blockNonce).pendingKind? = none := by cases kind <;> rfl

namespace NodeStore

variable {s s' s'' : NodeStore} {kind : CallbackKind} {ids : List ℕ} {n : ℕ}

/-! ### Sending a call -/

/-- The nodes `ids` go to the pending state of the kind, everything else stays. -/
structure Prepared (kind : CallbackKind) (s s' : NodeStore) (ids : List ℕ) : Prop where
  keys : SameKeys s s'
  nodup : ids.Nodup
  registered : ∀ n ∈ ids, n ≠ 0 ∧ n ≤ s.numNodes
  sent : ∀ n ∈ ids, (s.nodeState n).toPending kind = some (s'.nodeState n)
  kept : ∀ n, n ∉ ids → s'.nodeState n = s.nodeState n

theorem prepared_nil : Prepared kind s s [] :=
  ⟨.rfl', .nil, by simp, by simp, fun _ _ => rfl⟩

/-- One more node. It cannot be one of those already prepared, which are pending. -/
theorem Prepared.push (h : Prepared kind s s' ids) {st : NodeState}
    (hst : (s'.nodeState n).toPending kind = some st) (hn : n ≠ 0) (hle : n ≤ s.numNodes) :
    Prepared kind s (s'.setNodeState n st) (ids ++ [n]) := by
  have hnot : n ∉ ids := by
    intro hmem
    have h1 := (NodeState.pendingKind?_of_toPending (h.sent n hmem)).1
    have h2 := (NodeState.pendingKind?_of_toPending hst).2.1
    rw [h1] at h2
    cases h2
  refine ⟨h.keys.trans (sameKeys_setNodeState n st), ?_, fun m hm => ?_, fun m hm => ?_,
    fun m hm => ?_⟩
  · rw [List.nodup_append]
    exact ⟨h.nodup, List.nodup_singleton n, by grind⟩
  · rcases List.mem_append.mp hm with hm | hm
    · exact h.registered m hm
    · rw [List.mem_singleton.mp hm]
      exact ⟨hn, hle⟩
  · rw [setNodeState_nodeState, Function.update_apply]
    rcases List.mem_append.mp hm with hm | hm
    · rw [if_neg (by grind)]
      exact h.sent m hm
    · obtain rfl := List.mem_singleton.mp hm
      rw [if_pos rfl, ← hst, h.kept m hnot]
  · rw [List.mem_append, List.mem_singleton, not_or] at hm
    rw [setNodeState_nodeState, Function.update_of_ne hm.2]
    exact h.kept m hm.1

theorem Prepared.registry (h : Prepared kind s s' ids) (hreg : s.Registry) : s'.Registry := by
  refine hreg.of_sameKeys h.keys fun n hn => h.kept n fun hmem => ?_
  have := h.registered n hmem
  omega

/-- The loop of `stake_nodes`. -/
theorem prepareStakeNodes_spec (h : s.Registry) (blsKeys : List BLSKey) :
    Spec (blsKeys.foldlM prepareStakeNode (s, .new, []))
      (fun r => Prepared .auctionStake s r.1 r.2.1.ids) (fun _ => True) := by
  refine Spec.foldlM (J := fun _ (r : NodeStore × NodeIndexArrayVec × _) =>
    Prepared .auctionStake s r.1 r.2.1.ids) prepared_nil fun _ key r _ hr => ?_
  obtain ⟨s', v, sigs⟩ := r
  refine Spec.bind (spec_require fun _ => trivial) fun _ hid =>
    Spec.bind (spec_require fun _ => trivial) fun _ hst => Spec.of_forall_ok fun r' hr' => ?_
  obtain ⟨v', hv', hr'⟩ := bind_eq_ok.mp hr'
  rw [NodeIndexArrayVec.push_eq_ok] at hv'
  cases hr'
  rw [hv']
  refine hr.push ?_ hid ?_
  · rw [hst]
    rfl
  · rw [hr.keys.nodeBlsToId]
    exact h.id_le key

/-- The two loops of `unstake_nodes`. -/
theorem prepareUnstakeNodes_spec (h : s.Registry) (ids : List ℕ) :
    Spec (ids.foldlM prepareUnstakeNode s)
      (fun s' => Prepared .auctionUnstake s s' ids) (fun _ => True) := by
  refine Spec.foldlM (J := fun done s' => Prepared .auctionUnstake s s' done) prepared_nil
    fun done n s' _ hs' => ?_
  refine Spec.bind (spec_require fun _ => trivial) fun _ hst => ?_
  have hreg := (hs'.registry h).mem_of_nodeState_ne (n := n) (by rw [hst]; decide)
  rw [hs'.keys.numNodes] at hreg
  refine hs'.push ?_ hreg.1 hreg.2
  rw [hst]
  rfl

/-- What `prepare_node_for_unbond_if_possible` does. -/
theorem prepareNodeForUnbondIfPossible_cases (s : NodeStore) (n : ℕ) :
    (∃ st, (s.nodeState n).toPending .auctionUnbond = some st ∧
      s.prepareNodeForUnbondIfPossible n = (s.setNodeState n st, true)) ∨
    s.prepareNodeForUnbondIfPossible n = (s, false) := by
  unfold prepareNodeForUnbondIfPossible
  cases hst : s.nodeState n with
  | unBondPeriod started => exact .inl ⟨_, rfl, rfl⟩
  | _ => exact .inr rfl

/-- The loop of `unbond_specific_nodes_endpoint`. -/
theorem prepareUnbondNodes_spec (h : s.Registry) (blsKeys : List BLSKey) :
    Spec (blsKeys.foldlM prepareUnbondNode (s, .new))
      (fun r => Prepared .auctionUnbond s r.1 r.2.ids) (fun _ => True) := by
  refine Spec.foldlM (J := fun _ (r : NodeStore × NodeIndexArrayVec) =>
    Prepared .auctionUnbond s r.1 r.2.ids) prepared_nil fun _ key r _ hr => ?_
  obtain ⟨s', v⟩ := r
  refine Spec.bind (spec_require fun _ => trivial) fun _ hid => Spec.of_forall_ok fun r' hr' => ?_
  rcases s'.prepareNodeForUnbondIfPossible_cases (s'.nodeBlsToId key) with ⟨st, hst, heq⟩ | heq
  · rw [heq] at hr'
    obtain ⟨_, -, hr'⟩ := bind_eq_ok.mp hr'
    obtain ⟨v', hv', hr'⟩ := bind_eq_ok.mp hr'
    rw [NodeIndexArrayVec.push_eq_ok] at hv'
    cases hr'
    rw [hv']
    refine hr.push hst hid ?_
    rw [hr.keys.nodeBlsToId]
    exact h.id_le key
  · rw [heq] at hr'
    obtain ⟨_, hfalse, -⟩ := bind_eq_ok.mp hr'
    rw [require_eq_ok] at hfalse
    cases hfalse

theorem mem_descendingIds {bound : ℕ} :
    n ∈ Contract.descendingIds bound ↔ n ≠ 0 ∧ n ≤ bound := by
  induction bound with
  | zero => simp [Contract.descendingIds]
  | succ bound ih =>
    rw [Contract.descendingIds, List.mem_cons, ih]
    omega

/-- The loop of `unbond_all_possible_nodes`. -/
theorem prepareAllUnbond_spec (s : NodeStore) :
    Spec ((Contract.descendingIds s.numNodes).foldlM prepareUnbondIfPossible (s, .new, []))
      (fun r => Prepared .auctionUnbond s r.1 r.2.1.ids) (fun _ => True) := by
  refine Spec.foldlM (J := fun _ (r : NodeStore × NodeIndexArrayVec × _) =>
    Prepared .auctionUnbond s r.1 r.2.1.ids) prepared_nil fun _ n r hmem hr => ?_
  obtain ⟨s', v, keys⟩ := r
  have hn := mem_descendingIds.mp hmem
  refine Spec.of_forall_ok fun r' hr' => ?_
  simp only [prepareUnbondIfPossible] at hr'
  rcases s'.prepareNodeForUnbondIfPossible_cases n with ⟨st, hst, heq⟩ | heq
  · rw [heq] at hr'
    simp only [if_true] at hr'
    obtain ⟨v', hv', hr'⟩ := bind_eq_ok.mp hr'
    rw [NodeIndexArrayVec.push_eq_ok] at hv'
    cases hr'
    rw [hv']
    exact hr.push hst hn.1 hn.2
  · rw [heq] at hr'
    cases hr'
    exact hr

/-! ### Finishing a call -/

/-- The node's part of the call failed: the call did, or the answer lists the key of the node with
a status other than zero. -/
def Failed (s : NodeStore) (result : CallResult) (n : ℕ) : Prop :=
  match result with
  | .ok nodeStatusArgs => ∃ status ≠ 0, (s.nodeIdToBls n, status) ∈ nodeStatusArgs
  | .err _ => True

theorem Registry.reported_iff (h : s.Registry) (hn : n ≠ 0) (hle : n ≤ s.numNodes)
    (args : List (BLSKey × UInt32)) : s.Reported args n ↔ s.Failed (.ok args) n := by
  simp only [Reported, Failed, Prod.exists, h.nodeBlsToId_eq_iff hn hle]
  grind

/-- The nodes `ids` go back to where they came from, everything else stays. -/
structure Reverted (s s' : NodeStore) (ids : List ℕ) : Prop where
  keys : SameKeys s s'
  back : ∀ n ∈ ids, s'.nodeState n = (s.nodeState n).reverted
  kept : ∀ n, n ∉ ids → s'.nodeState n = s.nodeState n

/-- A callback fails well when it reverts any nodes that are pending for its kind. -/
def Reverts (kind : CallbackKind) (callbackFail : NodeStore → List ℕ → Exec NodeStore) : Prop :=
  ∀ s ids, ids.Nodup → (∀ n ∈ ids, (s.nodeState n).pendingKind? = some kind) →
    Spec (callbackFail s ids) (fun s' => Reverted s s' ids) (fun _ => False)

/-- A pending state that determines the state before it. -/
theorem reverts_setNodeStates {st : NodeState}
    (hst : ∀ st' : NodeState, st'.pendingKind? = some kind → st'.reverted = st) :
    Reverts kind fun s ids => .ok (s.setNodeStates ids st) := by
  intro s ids _ hpend
  refine ⟨sameKeys_setNodeStates ids st, fun n hn => ?_, fun n hn => ?_⟩
  · rw [nodeState_setNodeStates, if_pos hn, hst _ (hpend n hn)]
  · rw [nodeState_setNodeStates, if_neg hn]

/-- The nonce comes back as well. -/
theorem reverts_revertUnbond : Reverts .auctionUnbond fun s ids => ids.foldlM revertUnbond s := by
  intro s ids
  induction ids generalizing s with
  | nil => exact fun _ _ => ⟨.rfl', by simp, fun _ _ => rfl⟩
  | cons n ids ih =>
    intro hnd hpend
    obtain ⟨hn, hnd⟩ := List.nodup_cons.mp hnd
    obtain ⟨started, hst⟩ : ∃ started, s.nodeState n = .pendingUnBond started := by
      have := hpend n List.mem_cons_self
      cases hcase : s.nodeState n <;> rw [hcase] at this <;> cases this
      exact ⟨_, rfl⟩
    have hone : s.revertUnbond n = .ok (s.setNodeState n (.unBondPeriod started)) := by
      rw [revertUnbond, hst]
    have hothers : ∀ m ∈ ids, (s.setNodeState n (.unBondPeriod started)).nodeState m =
        s.nodeState m := fun m hm => by
      rw [setNodeState_nodeState, Function.update_of_ne (by grind)]
    simp only [List.foldlM_cons, hone, ok_bind]
    refine (ih _ hnd fun m hm => ?_).imp fun s' hs' => ⟨(sameKeys_setNodeState _ _).trans hs'.keys,
      fun m hm => ?_, fun m hm => ?_⟩
    · rw [hothers m hm]
      exact hpend m (List.mem_cons_of_mem _ hm)
    · rcases List.mem_cons.mp hm with rfl | hm
      · rw [hs'.kept m hn, setNodeState_nodeState, Function.update_self, hst]
        rfl
      · rw [hs'.back m hm, hothers m hm]
    · rw [List.mem_cons, not_or] at hm
      rw [hs'.kept m hm.2, setNodeState_nodeState, Function.update_of_ne hm.1]

/-- The nodes of a call go to the state of a success, or back where the node's part failed. -/
structure Finished (kind : CallbackKind) (blockNonce : UInt64) (result : CallResult)
    (s s' : NodeStore) (ids : List ℕ) : Prop where
  keys : SameKeys s s'
  done : ∀ n ∈ ids, ¬ s.Failed result n → s'.nodeState n = kind.success blockNonce
  back : ∀ n ∈ ids, s.Failed result n → s'.nodeState n = (s.nodeState n).reverted
  kept : ∀ n, n ∉ ids → s'.nodeState n = s.nodeState n

/-- **One specification for the three callbacks**: none panics. -/
theorem finishCall_spec (blockNonce : UInt64)
    {callbackFail : NodeStore → List ℕ → Exec NodeStore} (hfail : Reverts kind callbackFail)
    (hreg : s.Registry) {v : NodeIndexArrayVec} (hnd : v.ids.Nodup)
    (hpend : ∀ n ∈ v.ids, (s.nodeState n).pendingKind? = some kind) (result : CallResult) :
    Spec (s.finishCall (fun s ids => .ok (s.setNodeStates ids (kind.success blockNonce)))
        callbackFail v result)
      (fun s' => Finished kind blockNonce result s s' v.ids) (fun _ => False) := by
  cases result with
  | err msg =>
    refine (hfail s v.ids hnd hpend).imp fun s' hs' => ⟨hs'.keys, fun n hn h => absurd trivial h,
      fun n hn _ => hs'.back n hn, hs'.kept⟩
  | ok args =>
    refine Spec.bind (s.splitNodeIdsByErr_spec v args) fun r hr => ?_
    obtain ⟨ok, fail⟩ := r
    have hmem : ∀ n, n ∈ v.ids ↔ n ∈ ok.ids ∨ n ∈ fail.ids := fun n => by
      rw [← hr.perm.mem_iff, List.mem_append]
    have hnd' := hr.perm.nodup_iff.mpr hnd
    rw [List.nodup_append'] at hnd'
    -- the nodes that failed are those that the answer reports
    have hfailed : ∀ n ∈ v.ids, n ∈ fail.ids ↔ s.Failed (.ok args) n := fun n hn => by
      have hn' := hreg.mem_of_nodeState_ne (n := n) fun h => by
        have := hpend n hn
        rw [h] at this
        cases this
      rw [hr.mem_failed n hn, hreg.reported_iff hn'.1 hn'.2]
    have hkeep : ∀ n, n ∉ ok.ids →
        (s.setNodeStates ok.ids (kind.success blockNonce)).nodeState n = s.nodeState n :=
      fun n hn => by rw [nodeState_setNodeStates, if_neg hn]
    have hdisj : ∀ n ∈ fail.ids, n ∉ ok.ids := fun n hn hn' => hnd'.2.2 hn' hn
    refine (hfail _ fail.ids hnd'.2.1 fun n hn => ?_).imp fun s' hs' => ⟨(sameKeys_setNodeStates
      _ _).trans hs'.keys, fun n hn h => ?_, fun n hn h => ?_, fun n hn => ?_⟩
    · rw [hkeep n (hdisj n hn)]
      exact hpend n ((hmem n).mpr (.inr hn))
    · have hnf : n ∉ fail.ids := (hfailed n hn).not.mpr h
      rw [hs'.kept n hnf, nodeState_setNodeStates, if_pos (((hmem n).mp hn).resolve_right hnf)]
    · have hnf := (hfailed n hn).mpr h
      rw [hs'.back n hnf, hkeep n (hdisj n hnf)]
    · rw [hmem, not_or] at hn
      rw [hs'.kept n hn.2, hkeep n hn.1]

theorem runCallback_spec (hreg : s.Registry) {callback : Callback}
    (hnd : callback.nodeIds.ids.Nodup)
    (hpend : ∀ n ∈ callback.nodeIds.ids, (s.nodeState n).pendingKind? = some callback.kind)
    (blockNonce : UInt64) (result : CallResult) :
    Spec (s.runCallback blockNonce callback result)
      (fun s' => Finished callback.kind blockNonce result s s' callback.nodeIds.ids)
      (fun _ => False) := by
  obtain ⟨kind, v⟩ := callback
  cases kind with
  | auctionStake =>
    exact finishCall_spec blockNonce (reverts_setNodeStates fun st' h => by
      cases st' <;> first | rfl | cases h) hreg hnd hpend result
  | auctionUnstake =>
    exact finishCall_spec blockNonce (reverts_setNodeStates fun st' h => by
      cases st' <;> first | rfl | cases h) hreg hnd hpend result
  | auctionUnbond =>
    exact finishCall_spec blockNonce reverts_revertUnbond hreg hnd hpend result

theorem Finished.pendingKind? {blockNonce : UInt64} {result : CallResult}
    (h : Finished kind blockNonce result s s' ids) (hn : n ∈ ids) :
    (s'.nodeState n).pendingKind? = none := by
  by_cases hf : s.Failed result n
  · rw [h.back n hn hf, NodeState.pendingKind?_reverted]
  · rw [h.done n hn hf, CallbackKind.pendingKind?_success]

/-! ### What an endpoint does to the nodes -/

/-- Either the waiting nodes are left alone and no callback is registered, or a call is sent for
nodes that waited for nothing. -/
inductive Effect (s s' : NodeStore) (issued : Option AsyncCall) : Prop
  | quiet (hreg : s'.Registry) (h : Quiet s s') (hnone : ∀ call ∈ issued, call.callback = none)
  | sent {call : AsyncCall} {callback : Callback} (hissued : issued = some call)
      (hcall : call.callback = some callback)
      (h : Prepared callback.kind s s' callback.nodeIds.ids)

theorem quiet_rfl : Quiet s s := fun _ => .inl rfl

/-- The nodes of a call are prepared for its callback. -/
theorem Prepares.prepared {nodeIds : NodeIndexArrayVec} (h : s.Prepares kind s' nodeIds)
    (hreg : s.Registry) : Prepared kind s s' nodeIds.ids := by
  cases h with
  | stake h => exact (prepareStakeNodes_spec hreg _).of_ok h
  | unstake h => exact (prepareUnstakeNodes_spec hreg _).of_ok h
  | unbond h => exact (prepareUnbondNodes_spec hreg _).of_ok h
  | unbondAll h => exact (prepareAllUnbond_spec s).of_ok h

end NodeStore

namespace Contract

open NodeStore

variable {c c' : Contract} {env : Env} {call : Call} {issued : Option AsyncCall}

theorem Administered.effect (h : c.Administered env call c' issued) (hreg : c.nodes.Registry)
    (hcall : ∀ blsKeys, call ≠ .forceNodeUnBondPeriod blsKeys) :
    Effect c.nodes c'.nodes issued := by
  cases h with
  | nodesAdded _ h =>
    have hadded := (hreg.addNodes _).of_ok h
    exact .quiet hadded.1 hadded.2 (by simp)
  | nodesRemoved _ h =>
    have hremoved := (hreg.removeNodes _).of_ok h
    exact .quiet hremoved.1 hremoved.2 (by simp)
  | periodForced => exact absurd rfl (hcall _)
  | nothingToUnbond _ hprepares hnil =>
    have hp := hprepares.prepared hreg
    exact .quiet (hp.registry hreg) (fun n => .inl (hp.kept n (by simp [hnil]))) (by simp)
  | prepared _ hprepares => exact .sent rfl rfl (hprepares.prepared hreg)
  | requested | settingWritten | addressesUpdated => exact .quiet hreg quiet_rfl (by simp)

/-- **Every endpoint but `forceNodeUnBondPeriod`** sends a call or leaves waiting nodes alone. -/
theorem endpoint_effect (hreg : c.nodes.Registry)
    (hcall : ∀ blsKeys, call ≠ .forceNodeUnBondPeriod blsKeys)
    (h : c.endpoint env call = .ok (c', issued)) : Effect c.nodes c'.nodes issued := by
  cases hadmin : call.administrative with
  | true => exact (endpoint_administered hadmin h).effect hreg hcall
  | false =>
    obtain ⟨hnodes, rfl⟩ := endpoint_onLedger hadmin h
    rw [hnodes]
    exact .quiet hreg quiet_rfl (by simp)

theorem transaction_effect (hreg : c.nodes.Registry)
    (hcall : ∀ blsKeys, call ≠ .forceNodeUnBondPeriod blsKeys)
    (h : c.transaction env call = .ok (c', issued)) : Effect c.nodes c'.nodes issued := by
  obtain ⟨_, -, h⟩ := bind_eq_ok.mp h
  exact endpoint_effect (c := c.credit env.payment) hreg hcall h

end Contract

/-! ### Runs -/

/-- The kind of the call, once for each time the node occurs in it. -/
def AsyncCall.waiting (call : AsyncCall) (n : ℕ) : List CallbackKind :=
  match call.callback with
  | some callback => List.replicate (callback.nodeIds.ids.count n) callback.kind
  | none => []

/-- The kinds of the calls in flight that mention the node. -/
def World.waiting (w : World) (n : ℕ) : List CallbackKind := w.inFlight.flatMap (·.waiting n)

/-- The id occurs once in one call in flight, of this kind, and in no other call. -/
def World.OccursOnce (w : World) (n : ℕ) (kind : CallbackKind) : Prop :=
  ∃ (i : ℕ) (call : AsyncCall) (callback : Callback), w.inFlight[i]? = some call ∧
    call.callback = some callback ∧ callback.kind = kind ∧ callback.nodeIds.ids.count n = 1 ∧
    ∀ (j : ℕ) (call' : AsyncCall) (callback' : Callback), w.inFlight[j]? = some call' →
      call'.callback = some callback' → n ∈ callback'.nodeIds.ids → j = i

/-- What holds of the nodes and the calls in flight. -/
structure NodesFollowCalls (w : World) : Prop where
  registry : w.contract.nodes.Registry
  waiting : ∀ n, w.waiting n = (w.contract.nodes.nodeState n).pendingKind?.toList

/-- Every step but a `forceNodeUnBondPeriod`. -/
def Event.KeepsNodes (e : Event) : Prop :=
  ∀ env blsKeys, e ≠ .transaction env (.forceNodeUnBondPeriod blsKeys)

/-- The step answers the call that the node waits for. -/
def Answers (w : World) (e : Event) (n : ℕ) : Prop :=
  ∃ i blockNonce result call callback, e = .answer i blockNonce result ∧
    w.inFlight[i]? = some call ∧ call.callback = some callback ∧ n ∈ callback.nodeIds.ids

namespace NodesFollowCalls

open NodeStore

variable {w w' : World} {e : Event} {i n : ℕ} {call : AsyncCall} {callback : Callback}

theorem mem_waiting_of_mem (hcall : call.callback = some callback)
    (hn : n ∈ callback.nodeIds.ids) : call.waiting n ≠ [] := by
  rw [AsyncCall.waiting, hcall]
  simpa [List.replicate_eq_nil_iff, List.count_eq_zero] using hn

/-- Removing an answered call from the list removes its part. -/
theorem waiting_eq (hi : w.inFlight[i]? = some call) (n : ℕ) :
    ∃ before after, w.waiting n = before ++ call.waiting n ++ after ∧
      World.waiting ⟨w.contract, w.inFlight.eraseIdx i⟩ n = before ++ after := by
  obtain ⟨hlt, rfl⟩ := List.getElem?_eq_some_iff.mp hi
  refine ⟨(w.inFlight.take i).flatMap (·.waiting n),
    (w.inFlight.drop (i + 1)).flatMap (·.waiting n), ?_, ?_⟩
  · have hsplit : w.inFlight = w.inFlight.take i ++ w.inFlight[i] :: w.inFlight.drop (i + 1) := by
      rw [List.getElem_cons_drop, List.take_append_drop]
    have hflat := congrArg (List.flatMap (·.waiting n)) hsplit
    rw [List.flatMap_append, List.flatMap_cons, ← List.append_assoc] at hflat
    exact hflat
  · simp [World.waiting, List.eraseIdx_eq_take_drop_succ]

variable (h : NodesFollowCalls w)

include h

/-- The nodes of a call in flight are pending for it, each occurs once in it. -/
theorem inFlight (hi : w.inFlight[i]? = some call) (hcall : call.callback = some callback) :
    callback.nodeIds.ids.Nodup ∧ ∀ n ∈ callback.nodeIds.ids,
      (w.contract.nodes.nodeState n).pendingKind? = some callback.kind := by
  have hsub : ∀ n, (call.waiting n).Sublist (w.contract.nodes.nodeState n).pendingKind?.toList := by
    intro n
    obtain ⟨before, after, heq, -⟩ := waiting_eq hi n
    rw [← h.waiting n, heq]
    exact (List.sublist_append_right _ _).trans (List.sublist_append_left _ _)
  simp only [AsyncCall.waiting, hcall] at hsub
  refine ⟨List.nodup_iff_count_le_one.mpr fun n => ?_, fun n hn => ?_⟩
  · have hlen := (hsub n).length_le
    rw [List.length_replicate] at hlen
    exact hlen.trans (by cases (w.contract.nodes.nodeState n).pendingKind? <;> simp)
  · have hmem : callback.kind ∈ List.replicate (callback.nodeIds.ids.count n) callback.kind :=
      List.mem_replicate.mpr ⟨(List.count_pos_iff.mpr hn).ne', rfl⟩
    simpa [Option.mem_toList] using (hsub n).subset hmem

/-- A node is pending exactly when it occurs in one call in flight. -/
theorem pendingKind?_eq_some_iff {kind : CallbackKind} :
    (w.contract.nodes.nodeState n).pendingKind? = some kind ↔ w.OccursOnce n kind := by
  constructor
  · intro hk
    have hwait := h.waiting n
    rw [hk] at hwait
    obtain ⟨call, hmem, hkind⟩ : ∃ call ∈ w.inFlight, kind ∈ call.waiting n := by
      rw [← List.mem_flatMap]
      change kind ∈ w.waiting n
      rw [hwait]
      exact List.mem_singleton_self kind
    obtain ⟨i, hi⟩ := List.mem_iff_getElem?.mp hmem
    obtain ⟨callback, hcall⟩ : ∃ callback, call.callback = some callback := by
      cases hc : call.callback with
      | none => simp [AsyncCall.waiting, hc] at hkind
      | some callback => exact ⟨callback, rfl⟩
    have hin : n ∈ callback.nodeIds.ids := by
      by_contra hn
      simp [AsyncCall.waiting, hcall, List.count_eq_zero.mpr hn] at hkind
    obtain ⟨hnd, hpend⟩ := h.inFlight hi hcall
    refine ⟨i, call, callback, hi, hcall, ?_, List.count_eq_one_of_mem hnd hin, ?_⟩
    · have := hpend n hin
      rw [hk, Option.some.injEq] at this
      exact this.symm
    · -- a second call with the node would make the list of its kinds longer than one
      intro j call' callback' hj hcall' hin'
      by_contra hne
      obtain ⟨before, after, heq, herase⟩ := waiting_eq hi n
      have hmem' : call' ∈ w.inFlight.eraseIdx i :=
        List.mem_eraseIdx_iff_getElem?.mpr ⟨j, hne, hj⟩
      have hrest : before ++ after ≠ [] := by
        rw [← herase]
        exact fun hnil => mem_waiting_of_mem hcall' hin' (List.flatMap_eq_nil_iff.mp hnil _ hmem')
      have hone := mem_waiting_of_mem hcall hin
      rw [hwait] at heq
      cases before <;> cases hw : call.waiting n <;> cases after <;> simp_all
  · rintro ⟨i, call, callback, hi, hcall, rfl, hcount, -⟩
    exact (h.inFlight hi hcall).2 n (List.count_pos_iff.mp (by omega))

/-- **No callback panics**, and it finishes just the nodes of its call. -/
theorem answer (hi : w.inFlight[i]? = some call) (blockNonce : UInt64) (result : CallResult) :
    ∃ c, w.contract.answer blockNonce call result = .ok c ∧
      match call.callback with
      | some callback => Finished callback.kind blockNonce result w.contract.nodes c.nodes
          callback.nodeIds.ids
      | none => c.nodes = w.contract.nodes := by
  have hnodes : (w.contract.returned call result).nodes = w.contract.nodes := by
    cases result <;> rfl
  unfold Contract.answer
  cases hcall : call.callback with
  | none => exact ⟨_, rfl, hnodes⟩
  | some callback =>
    obtain ⟨hnd, hpend⟩ := h.inFlight hi hcall
    obtain ⟨s', hs', hfin⟩ := (runCallback_spec h.registry hnd hpend blockNonce result).exists_ok
    simp only [hnodes, hs', ok_bind]
    exact ⟨_, rfl, hfin⟩

/-- The step that answers a call. -/
theorem step_answer {blockNonce : UInt64} {result : CallResult} {c : Contract}
    (hi : w.inFlight[i]? = some call) (hc : w.contract.answer blockNonce call result = .ok c) :
    NodesFollowCalls ⟨c, w.inFlight.eraseIdx i⟩ := by
  obtain ⟨c', hc', hfin⟩ := h.answer hi blockNonce result
  rw [hc, Except.ok.injEq] at hc'
  subst hc'
  cases hcall : call.callback with
  | none =>
    simp only [hcall] at hfin
    refine ⟨by rw [hfin]; exact h.registry, fun n => ?_⟩
    obtain ⟨before, after, heq, herase⟩ := waiting_eq hi n
    have hempty : call.waiting n = [] := by rw [AsyncCall.waiting, hcall]
    rw [hempty, List.append_nil] at heq
    rw [hfin, ← h.waiting n, heq, ← herase]
    rfl
  | some callback =>
    simp only [hcall] at hfin
    obtain ⟨hnd, hpend⟩ := h.inFlight hi hcall
    refine ⟨h.registry.of_sameKeys hfin.keys fun n hn => hfin.kept n fun hmem => ?_, fun n => ?_⟩
    · have hst := hpend n hmem
      rw [h.registry.unused n hn] at hst
      cases hst
    obtain ⟨before, after, heq, herase⟩ := waiting_eq hi n
    have herase' : World.waiting ⟨c, w.inFlight.eraseIdx i⟩ n = before ++ after := herase
    rw [herase']
    by_cases hn : n ∈ callback.nodeIds.ids
    · -- the one call that mentioned the node is gone, and the node is no longer pending
      have hne := mem_waiting_of_mem hcall hn
      have hone := h.waiting n
      rw [hpend n hn, heq] at hone
      rw [hfin.pendingKind? hn]
      cases before <;> cases hw : call.waiting n <;> cases after <;> simp_all
    · have hempty : call.waiting n = [] := by
        simp [AsyncCall.waiting, hcall, List.count_eq_zero.mpr hn]
      rw [hempty, List.append_nil] at heq
      rw [hfin.kept n hn, ← h.waiting n, heq]

/-- The step that runs an endpoint. -/
theorem step_effect {c : Contract} {issued : Option AsyncCall}
    (heff : Effect w.contract.nodes c.nodes issued) :
    NodesFollowCalls ⟨c, w.inFlight ++ issued.toList⟩ := by
  have happ : ∀ n, World.waiting ⟨c, w.inFlight ++ issued.toList⟩ n =
      (w.contract.nodes.nodeState n).pendingKind?.toList ++
        issued.toList.flatMap (·.waiting n) := by
    intro n
    rw [← h.waiting n]
    simp [World.waiting]
  cases heff with
  | quiet hreg hquiet hnone =>
    refine ⟨hreg, fun n => ?_⟩
    have hempty : issued.toList.flatMap (·.waiting n) = [] := by
      rw [List.flatMap_eq_nil_iff]
      intro call hcall
      rw [AsyncCall.waiting, hnone call (by simpa using hcall)]
    rw [happ, hempty, List.append_nil]
    rcases hquiet n with heq | ⟨h1, h2⟩
    · rw [heq]
    · rw [h1, h2]
  | @sent call callback hissued hcall hp =>
    refine ⟨hp.registry h.registry, fun n => ?_⟩
    rw [happ, hissued]
    simp only [Option.toList_some, List.flatMap_singleton, AsyncCall.waiting, hcall]
    by_cases hn : n ∈ callback.nodeIds.ids
    · obtain ⟨hnew, hold, -⟩ := NodeState.pendingKind?_of_toPending (hp.sent n hn)
      rw [hnew, hold, List.count_eq_one_of_mem hp.nodup hn]
      rfl
    · rw [hp.kept n hn, List.count_eq_zero.mpr hn, List.replicate_zero, List.append_nil]

/-- **The step lemma.** -/
theorem step (he : e.KeepsNodes) (hs : Step w e w') : NodesFollowCalls w' := by
  cases hs with
  | @transaction env call c issued htx =>
    exact h.step_effect (Contract.transaction_effect h.registry
      (fun blsKeys hcall => he env blsKeys (by rw [hcall])) htx)
  | answer hi hc => exact h.step_answer hi hc
  | @answerPanic i blockNonce result call err hi herr =>
    obtain ⟨c, hc, -⟩ := h.answer hi blockNonce result
    rw [herr] at hc
    cases hc
  | reward | receive => exact ⟨h.registry, h.waiting⟩

/-- A node that waits for a callback does not change before its call is answered. -/
theorem nodeState_eq (he : e.KeepsNodes) (hs : Step w e w')
    (hn : (w.contract.nodes.nodeState n).pendingKind? ≠ none) (hans : ¬ Answers w e n) :
    w'.contract.nodes.nodeState n = w.contract.nodes.nodeState n := by
  cases hs with
  | @transaction env call c issued htx =>
    cases Contract.transaction_effect h.registry
      (fun blsKeys hcall => he env blsKeys (by rw [hcall])) htx with
    | quiet _ hquiet _ => exact (hquiet n).resolve_right fun h => hn h.1
    | sent _ _ hp =>
      exact hp.kept n fun hmem => hn (NodeState.pendingKind?_of_toPending (hp.sent n hmem)).2.1
  | @answer i blockNonce result call c hi hc =>
    obtain ⟨c', hc', hfin⟩ := h.answer hi blockNonce result
    rw [hc, Except.ok.injEq] at hc'
    subst hc'
    cases hcall : call.callback with
    | none =>
      simp only [hcall] at hfin
      rw [hfin]
    | some callback =>
      simp only [hcall] at hfin
      exact hfin.kept n fun hmem =>
        hans ⟨i, blockNonce, result, call, callback, rfl, hi, hcall, hmem⟩
  | @answerPanic i blockNonce result call err hi herr =>
    obtain ⟨c, hc, -⟩ := h.answer hi blockNonce result
    rw [herr] at hc
    cases hc
  | reward | receive => rfl

end NodesFollowCalls

theorem Initial.nodesFollowCalls {w : World} (h : Initial w) : NodesFollowCalls w := by
  cases h with
  | @init env balance addr fee share nBlocks minStake cap c h =>
    obtain ⟨_, -, h⟩ := bind_eq_ok.mp h
    obtain ⟨_, -, h⟩ := bind_eq_ok.mp h
    cases h
    exact ⟨NodeStore.registry_empty, fun _ => rfl⟩

theorem nodesFollowCalls_of_reachable {w : World} (h : Reachable (fun _ e => e.KeepsNodes) w) :
    NodesFollowCalls w :=
  h.invariant (fun _ h => h.nodesFollowCalls) fun _ _ _ hw he hs => hw.step he hs

/-- The steps of a run during which the call of a node stays in flight. -/
def StaysInFlight (n : ℕ) (w w' : World) : Prop :=
  ∃ e, e.KeepsNodes ∧ Step w e w' ∧ ¬ Answers w e n

/-- **Node operations and their callbacks.** In every state that is reached without
`forceNodeUnBondPeriod`: a node is pending exactly when its id occurs once in one call in flight, of
the matching kind; no callback panics, and each moves the nodes of its call to the state of a
success, or back where the call or the node's part of it failed; and until the call is answered its
nodes stay as they were sent, so going back restores the state before the call. -/
theorem nodes_consistent_of_reachable {w : World} (h : Reachable (fun _ e => e.KeepsNodes) w) :
    (∀ n kind, (w.contract.nodes.nodeState n).pendingKind? = some kind ↔ w.OccursOnce n kind) ∧
    (∀ (i : ℕ) call blockNonce result, w.inFlight[i]? = some call →
      ∃ c, w.contract.answer blockNonce call result = .ok c ∧
        ∀ callback, call.callback = some callback →
          NodeStore.Finished callback.kind blockNonce result w.contract.nodes c.nodes
            callback.nodeIds.ids) ∧
    ∀ env call c issued callback, (Event.transaction env call).KeepsNodes →
      w.contract.transaction env call = .ok (c, some issued) →
      issued.callback = some callback → ∀ n ∈ callback.nodeIds.ids,
      ∀ w', Relation.ReflTransGen (StaysInFlight n) ⟨c, w.inFlight ++ [issued]⟩ w' →
        (w'.contract.nodes.nodeState n).pendingKind? = some callback.kind ∧
        (w'.contract.nodes.nodeState n).reverted = w.contract.nodes.nodeState n := by
  have hw := nodesFollowCalls_of_reachable h
  refine ⟨fun n kind => hw.pendingKind?_eq_some_iff, fun i call blockNonce result hi => ?_, ?_⟩
  · obtain ⟨c, hc, hfin⟩ := hw.answer hi blockNonce result
    refine ⟨c, hc, fun callback hcall => ?_⟩
    simpa only [hcall] using hfin
  · intro env call c issued callback he htx hcall n hn w' hrun
    have hsent := hw.step he (.transaction htx)
    have hkind : (c.nodes.nodeState n).pendingKind? = some callback.kind :=
      (hsent.inFlight (i := w.inFlight.length) (by simp) hcall).2 n hn
    have hback : (c.nodes.nodeState n).reverted = w.contract.nodes.nodeState n := by
      cases Contract.transaction_effect hw.registry
        (fun blsKeys hcall => he env blsKeys (by rw [hcall])) htx with
      | quiet _ _ hnone => simp [hnone issued rfl] at hcall
      | sent hissued hcall' hp =>
        cases hissued
        rw [hcall, Option.some.injEq] at hcall'
        subst hcall'
        exact (NodeState.pendingKind?_of_toPending (hp.sent n hn)).2.2
    -- along the run the invariant is kept and the node does not change
    suffices hsame : NodesFollowCalls w' ∧
        w'.contract.nodes.nodeState n = c.nodes.nodeState n by
      rw [hsame.2]
      exact ⟨hkind, hback⟩
    induction hrun with
    | refl => exact ⟨hsent, rfl⟩
    | tail _ hlast ih =>
      obtain ⟨hinv, heq⟩ := ih
      obtain ⟨e, he', hs, hans⟩ := hlast
      refine ⟨hinv.step he' hs, ?_⟩
      rw [hinv.nodeState_eq he' hs (by rw [heq, hkind]; simp) hans, heq]

/-- A contract that has left bootstrap mode with a cap of zero and stakes its first node. -/
theorem nodes_consistent_of_reachable_staked :
    ∃ w : World, (w.contract.nodes.nodeState 1).pendingKind? = some .auctionStake ∧
      w.OccursOnce 1 .auctionStake := by
  let events : List Event :=
    [.transaction (.plain 1 0 0) (.modifyTotalDelegationCap 0),
      .transaction (.plain 1 0 0) (.addNodes [(5, 6)]),
      .transaction (.plain 1 0 0) (.stakeNodes 0 [5])]
  have hkind : (((World.deploy 1 0 2 0 0 0 0 0).bind (·.run events)).map fun w =>
      (w.contract.nodes.nodeState 1).pendingKind?) = some (some .auctionStake) := by
    decide +kernel
  obtain ⟨w, hrun, hw⟩ := Option.map_eq_some_iff.mp hkind
  have hreach : Reachable (fun _ e => e.KeepsNodes) w :=
    .run (fun _ h => World.initial_deploy h) (by simp [events, Event.KeepsNodes]) hrun
  exact ⟨w, hw, ((nodes_consistent_of_reachable hreach).1 1 .auctionStake).mp hw⟩

end Delegation
