import Delegation.Node.Views
import Delegation.Latest.NodeRegistry

/-!
# What the auction contract is told

A call to the auction contract names its nodes twice: the request lists their BLS keys, for the
auction contract, and the callback their ids, for the answer. Four loops build the two lists, each
in its own way. `AsyncCall.WellFormed` says that they agree, node by node, and that a `stake`
request gives the number of its nodes and the signature registered for each. It holds when the call
is sent (`Contract.endpoint_wellFormed`) and for as long as it is in flight: ids and keys never
change, and a signature changes only when a removed node is added again, which cannot happen to one
that is pending (`Change.wellFormed`).
-/

namespace Delegation

open Outcome

/-- What is to happen to which nodes. -/
def Request.about : Request → Option (CallbackKind × List BLSKey)
  | .stake _ blsKeysSignatures => some (.auctionStake, blsKeysSignatures.map Prod.fst)
  | .unStake blsKeys | .unStakeNodes blsKeys => some (.auctionUnstake, blsKeys)
  | .unBondNodes blsKeys => some (.auctionUnbond, blsKeys)
  | _ => none

/-- The call says the same to the auction contract and to its callback. -/
structure AsyncCall.WellFormed (s : NodeStore) (call : AsyncCall) : Prop where
  about : call.request.about = call.callback.map fun callback =>
    (callback.kind, callback.nodeIds.ids.map s.nodeIdToBls)
  signed : ∀ numNodes blsKeysSignatures, call.request = .stake numNodes blsKeysSignatures →
    numNodes = blsKeysSignatures.length ∧
      ∀ pair ∈ blsKeysSignatures, s.getNodeSignature pair.1 = some pair.2

namespace NodeStore

variable {s s' : NodeStore} {kind : CallbackKind}

/-! ### The loops -/

theorem registration_eq_iff : s'.registration = s.registration ↔
    s'.numNodes = s.numNodes ∧ s'.nodeBlsToId = s.nodeBlsToId ∧
      s'.nodeIdToBls = s.nodeIdToBls ∧ s'.nodeSignature = s.nodeSignature := by
  simp only [registration, Prod.mk.injEq]

/-- The loop of `stake_nodes`. -/
theorem prepareStakeNodes_pairs (hs : s.Numbered s.numNodes) (blsKeys : List BLSKey) :
    Spec (blsKeys.foldlM prepareStakeNode (s, .new, []))
      (fun r => r.2.2.map Prod.fst = r.2.1.ids.map s.nodeIdToBls ∧
        ∀ pair ∈ r.2.2, s.getNodeSignature pair.1 = some pair.2) (fun _ => True) := by
  refine (Spec.foldlM (J := fun _ (r : NodeStore × NodeIndexArrayVec × _) =>
    r.1.registration = s.registration ∧ r.2.2.map Prod.fst = r.2.1.ids.map s.nodeIdToBls ∧
      ∀ pair ∈ r.2.2, s.getNodeSignature pair.1 = some pair.2) ⟨rfl, rfl, by simp⟩
    fun _ key r _ hr => Spec.of_forall_ok fun r' hr' => ?_).imp fun _ h => h.2
  obtain ⟨s₁, v, sigs⟩ := r
  obtain ⟨hreg, hkeys, hsigs⟩ := hr
  simp only at hreg hkeys hsigs
  obtain ⟨_, hid, hr'⟩ := bind_eq_ok.mp hr'
  obtain ⟨_, -, hr'⟩ := bind_eq_ok.mp hr'
  obtain ⟨v', hv', hr'⟩ := bind_eq_ok.mp hr'
  rw [NodeIndexArrayVec.push_eq_ok] at hv'
  cases hr'
  obtain ⟨-, hids, -, hsig⟩ := registration_eq_iff.mp hreg
  rw [hids] at hid hv'
  have hknown := require_eq_ok.mp hid
  refine ⟨hreg, ?_, fun pair hpair => ?_⟩
  · simp only [hv', List.map_append, hkeys, List.map_singleton, hs.key_of_id key hknown]
  · rcases List.mem_append.mp hpair with hpair | hpair
    · exact hsigs pair hpair
    · obtain rfl := List.mem_singleton.mp hpair
      simp only [getNodeSignature, hids, hsig, if_neg hknown]

/-- The loop of `unstake_nodes`. -/
theorem pushNodeIds_keys (hs : s.Numbered s.numNodes) (blsKeys : List BLSKey) :
    Spec (blsKeys.foldlM s.pushNodeId .new)
      (fun v => blsKeys = v.ids.map s.nodeIdToBls) (fun _ => True) := by
  refine Spec.foldlM (J := fun done (v : NodeIndexArrayVec) => done = v.ids.map s.nodeIdToBls) rfl
    fun done key v _ hv => Spec.bind (spec_require fun _ => trivial) fun _ hid =>
      Spec.of_forall_ok fun v' hv' => ?_
  rw [NodeIndexArrayVec.push_eq_ok] at hv'
  rw [hv', List.map_append, ← hv, List.map_singleton, hs.key_of_id key hid]

/-- The loop of `unbond_specific_nodes_endpoint`. -/
theorem prepareUnbondNodes_keys (hs : s.Numbered s.numNodes) (blsKeys : List BLSKey) :
    Spec (blsKeys.foldlM prepareUnbondNode (s, .new))
      (fun r => blsKeys = r.2.ids.map s.nodeIdToBls) (fun _ => True) := by
  refine (Spec.foldlM (J := fun done (r : NodeStore × NodeIndexArrayVec) =>
    r.1.registration = s.registration ∧ done = r.2.ids.map s.nodeIdToBls) ⟨rfl, rfl⟩
    fun done key r _ hr => Spec.of_forall_ok fun r' hr' => ?_).imp fun _ h => h.2
  have hreg := (registration_prepareUnbondNode hr').trans hr.1
  obtain ⟨s₁, v⟩ := r
  obtain ⟨_, hid, hr'⟩ := bind_eq_ok.mp hr'
  obtain ⟨_, -, hr'⟩ := bind_eq_ok.mp hr'
  obtain ⟨v', hv', hr'⟩ := bind_eq_ok.mp hr'
  rw [NodeIndexArrayVec.push_eq_ok] at hv'
  cases hr'
  rw [(registration_eq_iff.mp hr.1).2.1] at hid hv'
  refine ⟨hreg, ?_⟩
  rw [hv', List.map_append, ← hr.2, List.map_singleton,
    hs.key_of_id key (require_eq_ok.mp hid)]

/-- The loop of `unbond_all_possible_nodes`. -/
theorem prepareAllUnbond_keys (s : NodeStore) :
    Spec ((Contract.descendingIds s.numNodes).foldlM prepareUnbondIfPossible (s, .new, []))
      (fun r => r.2.2 = r.2.1.ids.map s.nodeIdToBls) (fun _ => True) := by
  refine (Spec.foldlM (J := fun _ (r : NodeStore × NodeIndexArrayVec × List BLSKey) =>
    r.1.registration = s.registration ∧ r.2.2 = r.2.1.ids.map s.nodeIdToBls) ⟨rfl, rfl⟩
    fun _ n r _ hr => Spec.of_forall_ok fun r' hr' => ?_).imp fun _ h => h.2
  have hreg := (registration_prepareUnbondIfPossible hr').trans hr.1
  obtain ⟨s₁, v, keys⟩ := r
  have hone := (s₁.registration_prepareNodeForUnbondIfPossible n).trans hr.1
  simp only [prepareUnbondIfPossible] at hr'
  split_ifs at hr'
  · obtain ⟨v', hv', hr'⟩ := bind_eq_ok.mp hr'
    rw [NodeIndexArrayVec.push_eq_ok] at hv'
    cases hr'
    have hlist : keys = v.ids.map s.nodeIdToBls := hr.2
    refine ⟨hreg, ?_⟩
    simp only [hv', List.map_append, List.map_singleton, hlist,
      (registration_eq_iff.mp hone).2.2.1]
  · cases hr'
    exact ⟨hreg, hr.2⟩

end NodeStore

namespace Contract

open NodeStore

variable {c c' c₁ : Contract} {env : Env} {call : Call} {issued : Option AsyncCall}

/-! ### Sending -/

theorem wellFormed_of_sendAsync {s : NodeStore} {recipient : Address} {request : Request}
    {egld : ℕ} {callback : Option Callback}
    (habout : request.about = callback.map fun callback =>
      (callback.kind, callback.nodeIds.ids.map s.nodeIdToBls))
    (hsigned : ∀ numNodes blsKeysSignatures, request = .stake numNodes blsKeysSignatures →
      numNodes = blsKeysSignatures.length ∧
        ∀ pair ∈ blsKeysSignatures, s.getNodeSignature pair.1 = some pair.2)
    (h : c₁.sendAsync recipient request egld callback = .ok (c', issued)) :
    ∀ sent ∈ issued, sent.WellFormed s := by
  obtain ⟨-, -, rfl⟩ := sendAsync_eq_ok h
  rintro _ ⟨⟩
  exact ⟨habout, hsigned⟩

theorem stakeNodes_wellFormed (hs : c.nodes.Numbered c.nodes.numNodes) {amountToStake : ℕ}
    {blsKeys : List BLSKey} (h : c.stakeNodes env amountToStake blsKeys = .ok (c', issued)) :
    ∀ sent ∈ issued, sent.WellFormed c.nodes := by
  obtain ⟨_, -, h⟩ := bind_eq_ok.mp h
  obtain ⟨_, -, h⟩ := bind_eq_ok.mp h
  obtain ⟨_, -, h⟩ := bind_eq_ok.mp h
  obtain ⟨_, -, h⟩ := bind_eq_ok.mp h
  obtain ⟨_, -, h⟩ := bind_eq_ok.mp h
  obtain ⟨_, -, h⟩ := bind_eq_ok.mp h
  obtain ⟨r, hr, h⟩ := bind_eq_ok.mp h
  obtain ⟨hkeys, hsigs⟩ := (prepareStakeNodes_pairs hs blsKeys).of_ok hr
  refine wellFormed_of_sendAsync (by simp only [Request.about, hkeys, Option.map_some]) ?_ h
  rintro _ _ ⟨⟩
  have hlength := congrArg List.length hkeys
  rw [List.length_map, List.length_map] at hlength
  exact ⟨hlength.symm, hsigs⟩

theorem unstakeNodesWith_wellFormed (hs : c.nodes.Numbered c.nodes.numNodes)
    {unstakeTokens : Bool} {blsKeys : List BLSKey}
    (h : c.unstakeNodesWith unstakeTokens blsKeys = .ok (c', issued)) :
    ∀ sent ∈ issued, sent.WellFormed c.nodes := by
  obtain ⟨_, -, h⟩ := bind_eq_ok.mp h
  obtain ⟨v, hv, h⟩ := bind_eq_ok.mp h
  obtain ⟨_, -, h⟩ := bind_eq_ok.mp h
  have hkeys := (pushNodeIds_keys hs blsKeys).of_ok hv
  refine wellFormed_of_sendAsync ?_ (by cases unstakeTokens <;> simp) h
  rw [Option.map_some, ← hkeys]
  cases unstakeTokens with
  | true => rfl
  | false => rfl

theorem unBondNodes_wellFormed (hs : c.nodes.Numbered c.nodes.numNodes) {blsKeys : List BLSKey}
    (h : c.unBondNodes env blsKeys = .ok (c', issued)) :
    ∀ sent ∈ issued, sent.WellFormed c.nodes := by
  obtain ⟨_, -, h⟩ := bind_eq_ok.mp h
  obtain ⟨_, -, h⟩ := bind_eq_ok.mp h
  obtain ⟨_, -, h⟩ := bind_eq_ok.mp h
  obtain ⟨r, hr, h⟩ := bind_eq_ok.mp h
  have hkeys := (prepareUnbondNodes_keys hs blsKeys).of_ok hr
  exact wellFormed_of_sendAsync (by rw [Option.map_some, ← hkeys]; rfl) (by simp) h

theorem unBondAllPossibleNodes_wellFormed (h : c.unBondAllPossibleNodes env = .ok (c', issued)) :
    ∀ sent ∈ issued, sent.WellFormed c.nodes := by
  obtain ⟨_, -, h⟩ := bind_eq_ok.mp h
  obtain ⟨_, -, h⟩ := bind_eq_ok.mp h
  obtain ⟨r, hr, h⟩ := bind_eq_ok.mp h
  have hkeys := (prepareAllUnbond_keys c.nodes).of_ok hr
  simp only at h
  split_ifs at h
  · cases h
    simp
  · exact wellFormed_of_sendAsync (by rw [Option.map_some, ← hkeys]; rfl) (by simp) h

/-- **Every call that an endpoint sends** is well formed. -/
theorem endpoint_wellFormed (hs : c.nodes.Numbered c.nodes.numNodes)
    (h : c.endpoint env call = .ok (c', issued)) : ∀ sent ∈ issued, sent.WellFormed c.nodes := by
  cases call with
  | stakeNodes => exact stakeNodes_wellFormed hs h
  | unStakeNodes | unStakeNodesAndTokens =>
    obtain ⟨_, -, h⟩ := bind_eq_ok.mp h
    exact unstakeNodesWith_wellFormed hs h
  | unBondNodes => exact unBondNodes_wellFormed hs h
  | unBondAllPossibleNodes => exact unBondAllPossibleNodes_wellFormed h
  | claimUnusedFunds | unJailNodes =>
    obtain ⟨_, -, h⟩ := bind_eq_ok.mp h
    obtain ⟨_, -, h⟩ := bind_eq_ok.mp h
    exact wellFormed_of_sendAsync rfl (by simp) h
  | dnsRegister =>
    obtain ⟨_, -, h⟩ := bind_eq_ok.mp h
    exact wellFormed_of_sendAsync rfl (by simp) h
  | unStakeTokens amount =>
    have h : c.callAuction (.unStakeTokens amount) 0 none = .ok (c', issued) := h
    exact wellFormed_of_sendAsync rfl (by simp) h
  | unBondTokens amount =>
    have h : c.callAuction (.unBondTokens amount) 0 none = .ok (c', issued) := h
    exact wellFormed_of_sendAsync rfl (by simp) h
  | addNodes | removeNodes =>
    obtain ⟨-, rfl, -⟩ := onNodes_eq_ok h
    simp
  | forceNodeUnBondPeriod =>
    obtain ⟨_, -, h⟩ := bind_eq_ok.mp h
    obtain ⟨_, -, h⟩ := bind_eq_ok.mp h
    cases h
    simp
  | setNumBlocksBeforeUnBond | setMinimumStake | setFeatureFlag | pause | unpause =>
    obtain ⟨-, rfl, -⟩ := onSettings_eq_ok h
    simp
  | updateUserAddress =>
    obtain ⟨rfl, -⟩ := onLedger_eq_ok h
    simp
  | _ =>
    obtain ⟨-, rfl⟩ := endpoint_onLedger rfl h
    simp

end Contract

/-! ### In flight -/

namespace NodeStore

variable {s s' : NodeStore} {call : AsyncCall}

/-- Only a removed node can get another signature. -/
theorem getNodeSignature_of_change (hs : s.Numbered s.numNodes) (h : Change s s') {key : BLSKey}
    (hkey : s.getNodeState key ≠ .removed) : s'.getNodeSignature key = s.getNodeSignature key := by
  cases h with
  | addNodes h =>
    have hremoved := (addNodes_getNodeState hs _).of_ok h
    exact (((addNodes_added hs _).of_ok h).of_not_mem hs fun hmem => hkey (hremoved key hmem)).2
  | removeNodes h =>
    rw [((removeNodes_removedAll s _).of_ok h).eq]
    rfl
  | states h => exact getNodeSignature_congr h

/-- A call about nodes that are in use stays well formed, whatever happens to the registry. -/
theorem Change.wellFormed (h : Change s s') (hs : s.Numbered s.numNodes)
    (hcall : call.WellFormed s)
    (hused : ∀ callback, call.callback = some callback → ∀ n ∈ callback.nodeIds.ids,
      n ≠ 0 ∧ n ≤ s.numNodes ∧ s.nodeState n ≠ .removed) : call.WellFormed s' := by
  obtain ⟨-, hext⟩ := h.numbered hs
  refine ⟨?_, fun numNodes pairs hreq =>
    ⟨(hcall.signed numNodes pairs hreq).1, fun pair hpair => ?_⟩⟩
  · rw [hcall.about]
    cases hcallback : call.callback with
    | none => rfl
    | some callback =>
      have hkeys : callback.nodeIds.ids.map s'.nodeIdToBls =
          callback.nodeIds.ids.map s.nodeIdToBls := List.map_congr_left fun n hn =>
        hext.keys n (hused callback hcallback n hn).1 (hused callback hcallback n hn).2.1
      rw [Option.map_some, Option.map_some, hkeys]
  · rw [← (hcall.signed numNodes pairs hreq).2 pair hpair]
    refine getNodeSignature_of_change hs h ?_
    -- the key is that of a node of the callback
    have habout := hcall.about
    rw [hreq] at habout
    obtain ⟨callback, hcallback, heq⟩ := Option.map_eq_some_iff.mp habout.symm
    have hmem : pair.1 ∈ callback.nodeIds.ids.map s.nodeIdToBls := by
      rw [(Prod.mk.inj heq).2]
      exact List.mem_map_of_mem hpair
    obtain ⟨n, hn, hkey⟩ := List.mem_map.mp hmem
    obtain ⟨hn0, hle, hstate⟩ := hused callback hcallback n hn
    have hid : s.nodeBlsToId pair.1 = n := by rw [← hkey, hs.id_of_key hn0 hle]
    rw [getNodeState_of_known (by rw [hid]; exact hn0), hid]
    exact hstate

end NodeStore

/-- What holds of the nodes and of the calls about them. -/
structure CallsWellFormed (w : World) : Prop where
  nodes : NodesFollowCalls w
  numbered : w.contract.nodes.Numbered w.contract.nodes.numNodes
  calls : ∀ call ∈ w.inFlight, call.WellFormed w.contract.nodes

namespace CallsWellFormed

open NodeStore

variable {w w' : World} {e : Event} {call : AsyncCall} {callback : Callback}

/-- The nodes of a call in flight are registered and wait for it. -/
theorem pending (h : CallsWellFormed w) (hcall : call ∈ w.inFlight)
    (hcallback : call.callback = some callback) {n : ℕ} (hn : n ∈ callback.nodeIds.ids) :
    n ≠ 0 ∧ n ≤ w.contract.nodes.numNodes ∧
      (w.contract.nodes.nodeState n).pendingKind? = some callback.kind := by
  obtain ⟨i, hi⟩ := List.mem_iff_getElem?.mp hcall
  have hpend := (h.nodes.inFlight hi hcallback).2 n hn
  have hused := h.nodes.registry.mem_of_nodeState_ne (n := n) fun hinactive => by
    rw [hinactive] at hpend
    cases hpend
  exact ⟨hused.1, hused.2, hpend⟩

theorem wellFormed_of_change (h : CallsWellFormed w) {s' : NodeStore}
    (hs' : Change w.contract.nodes s') (hcall : call ∈ w.inFlight) : call.WellFormed s' := by
  refine hs'.wellFormed h.numbered (h.calls call hcall) fun callback hcallback n hn => ?_
  obtain ⟨hn0, hle, hpend⟩ := h.pending hcall hcallback hn
  refine ⟨hn0, hle, fun hremoved => ?_⟩
  rw [hremoved] at hpend
  cases hpend

/-- **The step lemma.** -/
theorem step (h : CallsWellFormed w) (he : e.KeepsNodes) (hs : Step w e w') :
    CallsWellFormed w' := by
  refine ⟨h.nodes.step he hs, (hs.nodes_change.numbered h.numbered).1, fun call hcall => ?_⟩
  have hchange := hs.nodes_change
  cases hs with
  | @transaction env endpoint c issued htx =>
    rcases List.mem_append.mp hcall with hcall | hcall
    · exact h.wellFormed_of_change hchange hcall
    · -- a call that is sent changes the states only
      have hissued : call ∈ issued := Option.mem_toList.mp hcall
      obtain ⟨_, -, hendpoint⟩ := bind_eq_ok.mp htx
      have hwf := Contract.endpoint_wellFormed (c := w.contract.credit env.payment) h.numbered
        hendpoint call hissued
      refine hchange.wellFormed h.numbered hwf fun callback hcallback n hn => ?_
      cases Contract.transaction_effect h.nodes.registry
        (fun blsKeys heq => he env blsKeys (by rw [heq])) htx with
      | quiet _ _ hnone =>
        rw [hnone call hissued] at hcallback
        cases hcallback
      | sent hsent hcallback' hp =>
        rw [hsent, Option.mem_some_iff] at hissued
        subst hissued
        rw [hcallback, Option.some.injEq] at hcallback'
        subst hcallback'
        refine ⟨(hp.registered n hn).1, (hp.registered n hn).2, fun hremoved => ?_⟩
        have hpending := hp.sent n hn
        rw [hremoved] at hpending
        cases hkind : callback.kind <;> rw [hkind] at hpending <;> cases hpending
  | answer | answerPanic => exact h.wellFormed_of_change hchange (List.mem_of_mem_eraseIdx hcall)
  | reward | receive => exact h.calls call hcall

end CallsWellFormed

theorem callsWellFormed_of_initial {w : World} (h : Initial w) : CallsWellFormed w := by
  have hnumbered := numbered_of_reachable (.initial h)
  refine ⟨h.nodesFollowCalls, hnumbered, ?_⟩
  cases h
  simp

end Delegation
