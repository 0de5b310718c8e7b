import Delegation.Lib.Automaton
import Delegation.Latest.Messages
import Delegation.Latest.Trace

/-!
# The life of a node

`NodeState.next` is the life cycle of a node, as a partial automaton: the owner adds and removes it,
a request about it is sent to the auction contract, and the answer reports it or does not. The
events that a step of a run shows about the node of a key (`Transition.nodeEvent`) are read off the
calls and the messages alone, without a look at the registry.

The registry is the state of this automaton, for every key and at every moment
(`lifecycle_of_run`). What `getNodeState` tells is therefore what has happened: a node that is
reported active has been staked with success since it was last inactive, and all that has been tried
with it since then has failed; and the block that its unbond period is counted from is the one in
which its unstaking succeeded.
-/

namespace Delegation

open Outcome Automaton

/-- What happens to a node. -/
inductive NodeEvent
  /-- The owner adds it. -/
  | added
  /-- The owner removes it. -/
  | removed
  /-- A request names it. -/
  | sent (kind : CallbackKind)
  /-- The answer to the request does not report it. -/
  | succeeded (kind : CallbackKind) (blockNonce : UInt64)
  /-- The answer to the request is an error, or reports it. -/
  | failed (kind : CallbackKind)
  deriving DecidableEq, Repr

/-- The life cycle of a node. -/
def NodeState.next (nodeState : NodeState) : NodeEvent → Option NodeState
  | .added => if nodeState = .removed then some .inactive else none
  | .removed => if nodeState = .inactive then some .removed else none
  | .sent kind => nodeState.toPending kind
  | .succeeded kind blockNonce =>
      if nodeState.pendingKind? = some kind then some (kind.success blockNonce) else none
  | .failed kind => if nodeState.pendingKind? = some kind then some nodeState.reverted else none

/-! ### What is seen of a node -/

/-- What a call of an endpoint says about the node of the key. -/
def Call.nodeEvent (blsKey : BLSKey) : Call → Option NodeEvent
  | .addNodes blsKeysSignatures =>
      if blsKey ∈ blsKeysSignatures.map Prod.fst then some .added else none
  | .removeNodes blsKeys => if blsKey ∈ blsKeys then some .removed else none
  | _ => none

/-- What the request is to do with the node of the key. -/
def Request.kindFor (request : Request) (blsKey : BLSKey) : Option CallbackKind :=
  request.about.bind fun (kind, blsKeys) => if blsKey ∈ blsKeys then some kind else none

/-- The answer is an error, or gives the key a status other than zero. -/
def CallResult.reports (blsKey : BLSKey) : CallResult → Bool
  | .ok nodeStatusArgs => nodeStatusArgs.any fun arg => arg.1 = blsKey ∧ arg.2 ≠ 0
  | .err _ => true

/-- What a step shows about the node of the key: the owner's call, the request that is sent, or the
answer to a request. -/
def Transition.nodeEvent (t : Transition) (blsKey : BLSKey) : Option NodeEvent :=
  match t.event with
  | .transaction _ call =>
      (call.nodeEvent blsKey).or
        ((t.after.inFlight[t.before.inFlight.length]?.bind (·.request.kindFor blsKey)).map .sent)
  | .answer i blockNonce result =>
      (t.before.inFlight[i]?.bind (·.request.kindFor blsKey)).map fun kind =>
        if result.reports blsKey then .failed kind else .succeeded kind blockNonce
  | .reward _ | .receive _ => none

/-- What has been seen of the node of the key in the course of a run. -/
def nodeHistory (trace : List Transition) (blsKey : BLSKey) : List NodeEvent :=
  trace.filterMap (·.nodeEvent blsKey)

/-! ### The life cycle -/

/-- The auction contract confirms that the node is staked. -/
def NodeEvent.stakes : NodeEvent → Bool
  | .succeeded .auctionStake _ => true
  | _ => false

/-- The auction contract confirms that the node is unbonded. -/
def NodeEvent.unbonds : NodeEvent → Bool
  | .succeeded .auctionUnbond _ => true
  | _ => false

namespace NodeState

/-- The diagram of the life cycle. -/
inductive Edge : NodeState → NodeEvent → NodeState → Prop
  | added : Edge .removed .added .inactive
  | removed : Edge .inactive .removed .removed
  | stake : Edge .inactive (.sent .auctionStake) .pendingActivation
  | staked (blockNonce : UInt64) :
      Edge .pendingActivation (.succeeded .auctionStake blockNonce) .active
  | stakeFailed : Edge .pendingActivation (.failed .auctionStake) .inactive
  | unstake : Edge .active (.sent .auctionUnstake) .pendingDeactivation
  | unstaked (blockNonce : UInt64) :
      Edge .pendingDeactivation (.succeeded .auctionUnstake blockNonce) (.unBondPeriod blockNonce)
  | unstakeFailed : Edge .pendingDeactivation (.failed .auctionUnstake) .active
  | unbond (started : UInt64) :
      Edge (.unBondPeriod started) (.sent .auctionUnbond) (.pendingUnBond started)
  | unbonded (started blockNonce : UInt64) :
      Edge (.pendingUnBond started) (.succeeded .auctionUnbond blockNonce) .inactive
  | unbondFailed (started : UInt64) :
      Edge (.pendingUnBond started) (.failed .auctionUnbond) (.unBondPeriod started)

variable {st st' : NodeState} {e : NodeEvent} {started : UInt64}

theorem edge_of_toPending {kind : CallbackKind} (h : st.toPending kind = some st') :
    Edge st (.sent kind) st' := by
  cases kind <;> cases st <;> simp only [toPending, Option.some.injEq, reduceCtorEq] at h <;>
    subst h <;> constructor

theorem edge_of_pendingKind? {kind : CallbackKind} (h : st.pendingKind? = some kind)
    (blockNonce : UInt64) : Edge st (.succeeded kind blockNonce) (kind.success blockNonce) ∧
      Edge st (.failed kind) st.reverted := by
  cases st <;> simp only [pendingKind?, Option.some.injEq, reduceCtorEq] at h <;> subst h <;>
    exact ⟨by constructor, by constructor⟩

/-- The automaton moves along the edges of the diagram. -/
theorem edge_of_next (h : st.next e = some st') : Edge st e st' := by
  cases e with
  | added | removed =>
    simp only [next] at h
    split_ifs at h with hst
    cases h
    subst hst
    constructor
  | sent kind => exact edge_of_toPending h
  | succeeded kind blockNonce =>
    simp only [next] at h
    split_ifs at h with hkind
    cases h
    exact (edge_of_pendingKind? hkind blockNonce).1
  | failed kind =>
    simp only [next] at h
    split_ifs at h with hkind
    cases h
    exact (edge_of_pendingKind? hkind 0).2

/-- The auction contract has the stake of the node. -/
def staked : NodeState → Bool
  | .active | .pendingDeactivation | .unBondPeriod _ | .pendingUnBond _ => true
  | _ => false

theorem Edge.staked_add (h : Edge st e st') :
    st'.staked.toNat + (if e.unbonds then 1 else 0) =
      st.staked.toNat + (if e.stakes then 1 else 0) := by
  cases h <;> rfl

theorem Edge.ne_activationFailed (h : Edge st e st') : st' ≠ .activationFailed := by
  cases h <;> simp

/-- Producing rewards, as far as the contract knows. -/
def Producing (st : NodeState) : Prop := st = .active ∨ st = .pendingDeactivation

theorem Edge.of_not_producing (h : Edge st e st') (hst : ¬ st.Producing) (hst' : st'.Producing) :
    ∃ blockNonce, e = .succeeded .auctionStake blockNonce := by
  cases h with
  | staked blockNonce => exact ⟨blockNonce, rfl⟩
  | unstake | unstakeFailed => simp [Producing] at hst
  | _ => simp [Producing] at hst'

theorem Edge.of_producing (h : Edge st e st') (hst : st.Producing) (hst' : st'.Producing) :
    e = .sent .auctionUnstake ∨ e = .failed .auctionUnstake := by
  cases h with
  | unstake => exact .inl rfl
  | unstakeFailed => exact .inr rfl
  | staked => simp [Producing] at hst
  | _ => simp [Producing] at hst'

/-- In the unbond period that began in this block. -/
def Unbonding (started : UInt64) (st : NodeState) : Prop :=
  st = .unBondPeriod started ∨ st = .pendingUnBond started

theorem Edge.of_not_unbonding (h : Edge st e st') (hst : ¬ st.Unbonding started)
    (hst' : st'.Unbonding started) : e = .succeeded .auctionUnstake started := by
  cases h with
  | unstaked => simpa [Unbonding] using hst'
  | unbond | unbondFailed =>
    simp only [Unbonding, reduceCtorEq, or_false, false_or, unBondPeriod.injEq,
      pendingUnBond.injEq] at hst hst'
    exact absurd hst' hst
  | _ => simp [Unbonding] at hst'

theorem Edge.of_unbonding (h : Edge st e st') (hst : st.Unbonding started)
    (hst' : st'.Unbonding started) : e = .sent .auctionUnbond ∨ e = .failed .auctionUnbond := by
  cases h with
  | unbond => exact .inl rfl
  | unbondFailed => exact .inr rfl
  | unstaked => simp [Unbonding] at hst
  | _ => simp [Unbonding] at hst'

end NodeState

/-! ### A step -/

namespace NodeStore

/-- What an endpoint does that neither adds nor removes nodes. -/
inductive Sends (s s' : NodeStore) (issued : Option AsyncCall) : Prop
  | sent {call : AsyncCall} {callback : Callback} (hissued : issued = some call)
      (hcallback : call.callback = some callback)
      (h : Prepared callback.kind s s' callback.nodeIds.ids)
  | kept (hissued : ∀ call ∈ issued, call.callback = none) (hkeys : SameKeys s s')
      (hstate : s'.nodeState = s.nodeState)

end NodeStore

namespace Contract

open NodeStore

variable {c c' : Contract} {env : Env} {call : Call} {issued : Option AsyncCall}

theorem Administered.sends (h : c.Administered env call c' issued) (hreg : c.nodes.Registry)
    (hadd : ∀ pairs, call ≠ .addNodes pairs) (hremove : ∀ blsKeys, call ≠ .removeNodes blsKeys)
    (hforce : ∀ blsKeys, call ≠ .forceNodeUnBondPeriod blsKeys) :
    Sends c.nodes c'.nodes issued := by
  cases h with
  | nodesAdded => exact absurd rfl (hadd _)
  | nodesRemoved => exact absurd rfl (hremove _)
  | periodForced => exact absurd rfl (hforce _)
  | nothingToUnbond _ hprepares hnil =>
    have hp := hprepares.prepared hreg
    exact .kept (by simp) hp.keys (funext fun n => hp.kept n (by simp [hnil]))
  | prepared _ hprepares => exact .sent rfl rfl (hprepares.prepared hreg)
  | requested | settingWritten | addressesUpdated => exact .kept (by simp) .rfl' rfl

theorem transaction_sends (h : c.transaction env call = .ok (c', issued))
    (hreg : c.nodes.Registry) (hadd : ∀ pairs, call ≠ .addNodes pairs)
    (hremove : ∀ blsKeys, call ≠ .removeNodes blsKeys)
    (hforce : ∀ blsKeys, call ≠ .forceNodeUnBondPeriod blsKeys) :
    Sends c.nodes c'.nodes issued := by
  obtain ⟨_, -, h⟩ := bind_eq_ok.mp h
  cases hadmin : call.administrative with
  | true => exact (endpoint_administered hadmin h).sends hreg hadd hremove hforce
  | false =>
    obtain ⟨hnodes, rfl⟩ := endpoint_onLedger hadmin h
    rw [hnodes]
    exact .kept (by simp) .rfl' rfl

end Contract

namespace CallsWellFormed

open NodeStore

variable {w w' : World} {e : Event} {key : BLSKey}

/-- The request of a well formed call is about the nodes of its callback. -/
theorem kindFor_eq {s : NodeStore} {call : AsyncCall} (h : call.WellFormed s)
    (hs : s.Numbered s.numNodes)
    (hids : ∀ callback, call.callback = some callback → ∀ n ∈ callback.nodeIds.ids,
      n ≠ 0 ∧ n ≤ s.numNodes) :
    call.request.kindFor key = call.callback.bind fun callback =>
      if s.nodeBlsToId key ∈ callback.nodeIds.ids then some callback.kind else none := by
  rw [Request.kindFor, h.about]
  cases hcallback : call.callback with
  | none => rfl
  | some callback =>
    have hiff : key ∈ callback.nodeIds.ids.map s.nodeIdToBls ↔
        s.nodeBlsToId key ∈ callback.nodeIds.ids := by
      rw [List.mem_map]
      constructor
      · rintro ⟨n, hn, rfl⟩
        rw [hs.id_of_key (hids callback hcallback n hn).1 (hids callback hcallback n hn).2]
        exact hn
      · intro hn
        exact ⟨_, hn, hs.key_of_id key (hids callback hcallback _ hn).1⟩
    simp only [Option.map_some, Option.bind_some, hiff]

/-- The call that a transaction sends is the last one in flight after it. -/
theorem getElem?_issued (inFlight : List AsyncCall) (issued : Option AsyncCall) :
    (inFlight ++ issued.toList)[inFlight.length]? = issued := by
  cases issued <;> simp

theorem nextState_addNodes (h : CallsWellFormed w) {env : Env}
    {pairs : List (BLSKey × BLSSignature)} {c : Contract} {issued : Option AsyncCall}
    (htx : w.contract.transaction env (.addNodes pairs) = .ok (c, issued)) :
    issued = none ∧ run NodeState.next (w.contract.nodes.getNodeState key)
      ((Call.addNodes pairs).nodeEvent key).toList = some (c.nodes.getNodeState key) := by
  obtain ⟨_, -, hcall⟩ := bind_eq_ok.mp htx
  obtain ⟨-, rfl, nodes, hnodes, rfl⟩ := Contract.onNodes_eq_ok hcall
  have hadded := (addNodes_added h.numbered pairs).of_ok hnodes
  have hremoved := (addNodes_getNodeState h.numbered pairs).of_ok hnodes
  refine ⟨rfl, ?_⟩
  simp only [Call.nodeEvent]
  split_ifs with hkey
  · refine run_some ?_
    rw [hremoved key hkey, hadded.getNodeState_of_mem hkey]
    rfl
  · exact run_none (hadded.of_not_mem h.numbered hkey).1

theorem nextState_removeNodes (h : CallsWellFormed w) {env : Env} {blsKeys : List BLSKey}
    {c : Contract} {issued : Option AsyncCall}
    (htx : w.contract.transaction env (.removeNodes blsKeys) = .ok (c, issued)) :
    issued = none ∧ run NodeState.next (w.contract.nodes.getNodeState key)
      ((Call.removeNodes blsKeys).nodeEvent key).toList = some (c.nodes.getNodeState key) := by
  obtain ⟨_, -, hcall⟩ := bind_eq_ok.mp htx
  obtain ⟨-, rfl, nodes, hnodes, rfl⟩ := Contract.onNodes_eq_ok hcall
  have hall := (removeNodes_removedAll _ blsKeys).of_ok hnodes
  have hinactive := (removeNodes_getNodeState _ blsKeys).of_ok hnodes
  refine ⟨rfl, ?_⟩
  simp only [Call.nodeEvent, hall.getNodeState_eq h.numbered key]
  split_ifs with hkey
  · have hst : w.contract.nodes.getNodeState key = .inactive := hinactive key hkey
    refine run_some ?_
    rw [hst]
    rfl
  · exact run_none rfl

/-- A transaction that sends a call, or does nothing to the nodes. -/
theorem nextState_sends (h : CallsWellFormed w) {nodes : NodeStore} {issued : Option AsyncCall}
    (hsends : Sends w.contract.nodes nodes issued)
    (hissued : ∀ call ∈ issued, call.WellFormed w.contract.nodes) :
    run NodeState.next (w.contract.nodes.getNodeState key)
      ((issued.bind (·.request.kindFor key)).map NodeEvent.sent).toList =
        some (nodes.getNodeState key) := by
  cases hsends with
  | kept hnone hkeys hstate =>
    have hkind : issued.bind (·.request.kindFor key) = none := by
      rw [Option.bind_eq_none_iff]
      intro call hcall
      rw [kindFor_eq (hissued call hcall) h.numbered (by simp [hnone call hcall]),
        hnone call hcall]
      rfl
    rw [hkind]
    exact run_none (getNodeState_congr hkeys.nodeBlsToId fun _ => by rw [hstate])
  | @sent call callback hcall hcallback hp =>
    subst hcall
    rw [Option.bind_some, kindFor_eq (hissued call rfl) h.numbered fun callback' h' => by
      rw [hcallback, Option.some.injEq] at h'
      subst h'
      exact hp.registered, hcallback, Option.bind_some]
    split_ifs with hkey
    · -- a node of the call
      have hknown := (hp.registered _ hkey).1
      refine run_some ?_
      rw [getNodeState_of_known hknown, getNodeState_of_known (by rwa [hp.keys.nodeBlsToId]),
        hp.keys.nodeBlsToId]
      exact hp.sent _ hkey
    · exact run_none (getNodeState_congr hp.keys.nodeBlsToId fun _ => hp.kept _ hkey)

/-- The answer to a call. -/
theorem nextState_answer (h : CallsWellFormed w) {i : ℕ} {blockNonce : UInt64}
    {result : CallResult} {call : AsyncCall} {c : Contract} (hi : w.inFlight[i]? = some call)
    (hc : w.contract.answer blockNonce call result = .ok c) :
    run NodeState.next (w.contract.nodes.getNodeState key)
      ((call.request.kindFor key).map fun kind =>
        if result.reports key then NodeEvent.failed kind
        else .succeeded kind blockNonce).toList = some (c.nodes.getNodeState key) := by
  have hmem := List.mem_of_getElem? hi
  obtain ⟨c', hc', hfin⟩ := h.nodes.answer hi blockNonce result
  rw [hc, Except.ok.injEq] at hc'
  subst hc'
  rw [kindFor_eq (h.calls call hmem) h.numbered fun callback hcallback n hn =>
    ⟨(h.pending hmem hcallback hn).1, (h.pending hmem hcallback hn).2.1⟩]
  cases hcallback : call.callback with
  | none =>
    simp only [hcallback] at hfin
    exact run_none (by rw [hfin])
  | some callback =>
    simp only [hcallback] at hfin
    rw [Option.bind_some]
    by_cases hkey : w.contract.nodes.nodeBlsToId key ∈ callback.nodeIds.ids
    · obtain ⟨hknown, hle, hpend⟩ := h.pending hmem hcallback hkey
      have hfailed : w.contract.nodes.Failed result (w.contract.nodes.nodeBlsToId key) ↔
          result.reports key = true := by
        unfold NodeStore.Failed CallResult.reports
        rw [h.numbered.key_of_id key hknown]
        cases result with
        | err => simp
        | ok args => simp [and_comm]
      rw [if_pos hkey, Option.map_some]
      refine run_some ?_
      rw [getNodeState_of_known hknown, getNodeState_of_known (by rwa [hfin.keys.nodeBlsToId]),
        hfin.keys.nodeBlsToId]
      split_ifs with hreports
      · rw [hfin.back _ hkey (hfailed.mpr hreports)]
        exact if_pos hpend
      · rw [hfin.done _ hkey (hfailed.not.mpr hreports)]
        exact if_pos hpend
    · rw [if_neg hkey]
      exact run_none (getNodeState_congr hfin.keys.nodeBlsToId fun _ => hfin.kept _ hkey)

/-- **The step lemma**: the node of every key moves as its life cycle does. -/
theorem nextState (h : CallsWellFormed w) (he : e.KeepsNodes) (hs : Step w e w') :
    run NodeState.next (w.contract.nodes.getNodeState key)
      (Transition.nodeEvent ⟨w, e, w'⟩ key).toList =
        some (w'.contract.nodes.getNodeState key) := by
  cases hs with
  | @transaction env call c issued htx =>
    simp only [Transition.nodeEvent, getElem?_issued]
    have hother (hadd : ∀ pairs, call ≠ .addNodes pairs)
        (hremove : ∀ blsKeys, call ≠ .removeNodes blsKeys) :
        run NodeState.next (w.contract.nodes.getNodeState key)
          ((issued.bind (·.request.kindFor key)).map NodeEvent.sent).toList =
            some (c.nodes.getNodeState key) := by
      obtain ⟨_, -, hendpoint⟩ := bind_eq_ok.mp htx
      exact h.nextState_sends (Contract.transaction_sends htx h.nodes.registry hadd hremove
        fun blsKeys heq => he env blsKeys (by rw [heq]))
        (Contract.endpoint_wellFormed (c := w.contract.credit env.payment) h.numbered hendpoint)
    cases call with
    | addNodes pairs =>
      obtain ⟨rfl, hrun⟩ := h.nextState_addNodes htx
      simpa using hrun
    | removeNodes blsKeys =>
      obtain ⟨rfl, hrun⟩ := h.nextState_removeNodes htx
      simpa using hrun
    | _ => exact hother (fun _ heq => by cases heq) fun _ heq => by cases heq
  | @answer i blockNonce result call c hi hc =>
    simp only [Transition.nodeEvent, hi, Option.bind_some]
    exact h.nextState_answer hi hc
  | @answerPanic i blockNonce result call err hi herr =>
    obtain ⟨c, hc, -⟩ := h.nodes.answer hi blockNonce result
    rw [herr] at hc
    cases hc
  | reward | receive => exact run_none rfl

end CallsWellFormed

/-! ### Runs -/

variable {w₀ w : World} {trace : List Transition}

theorem Run.callsWellFormed (h : Run (fun _ e => e.KeepsNodes) w₀ trace w) (h₀ : Initial w₀) :
    CallsWellFormed w := by
  induction h with
  | start => exact callsWellFormed_of_initial h₀
  | step _ he hs ih => exact ih.step he hs

theorem Initial.getNodeState_eq (h : Initial w) (key : BLSKey) :
    w.contract.nodes.getNodeState key = .removed := by
  obtain ⟨hinit⟩ := h
  obtain ⟨_, -, hinit⟩ := bind_eq_ok.mp hinit
  obtain ⟨_, -, hinit⟩ := bind_eq_ok.mp hinit
  cases hinit
  rfl

/-- **The registry follows the life cycle**: what has been seen of a node determines its state. -/
theorem Run.getNodeState_eq (h : Run (fun _ e => e.KeepsNodes) w₀ trace w) (h₀ : Initial w₀)
    (key : BLSKey) : run NodeState.next .removed (nodeHistory trace key) =
      some (w.contract.nodes.getNodeState key) := by
  induction h with
  | start => rw [h₀.getNodeState_eq key]; rfl
  | @step trace w w' e h he hs ih =>
    exact run_filterMap_concat ih ((h.callsWellFormed h₀).nextState he hs)

/-- **The life of a node.** In every run from `init` without `forceNodeUnBondPeriod`: every call in
flight tells the auction contract just what its callback is about; the history of a node, as it is
seen from the calls and messages, leads its life cycle to the state that `getNodeState` reports; it
is never the state of a failed activation; the auction contract has confirmed its staking once more
than its unbonding if it has the stake, and as often if not; a node that produces rewards has been
staked with success, and nothing but requests to unstake it, which failed or are not answered, has
happened since; and a node in its unbond period was unstaked with success in the block that the
period is counted from, and nothing but such requests to unbond it has happened since. -/
theorem lifecycle_of_run (h₀ : Initial w₀) (h : Run (fun _ e => e.KeepsNodes) w₀ trace w) :
    (∀ call ∈ w.inFlight, call.WellFormed w.contract.nodes) ∧
    ∀ key, let st := w.contract.nodes.getNodeState key
      run NodeState.next .removed (nodeHistory trace key) = some st ∧ st ≠ .activationFailed ∧
      (nodeHistory trace key).countP NodeEvent.stakes =
        (nodeHistory trace key).countP NodeEvent.unbonds + st.staked.toNat ∧
      (st.Producing → ∃ before blockNonce after,
        nodeHistory trace key = before ++ .succeeded .auctionStake blockNonce :: after ∧
          ∀ e ∈ after, e = .sent .auctionUnstake ∨ e = .failed .auctionUnstake) ∧
      ∀ started, (w.contract.nodes.getNodeBlockNonceOfUnstake key = some started ∨
          st = .pendingUnBond started) → ∃ before after,
        nodeHistory trace key = before ++ .succeeded .auctionUnstake started :: after ∧
          ∀ e ∈ after, e = .sent .auctionUnbond ∨ e = .failed .auctionUnbond := by
  refine ⟨(h.callsWellFormed h₀).calls, fun key => ?_⟩
  have hrun := h.getNodeState_eq h₀ key
  refine ⟨hrun, ?_, ?_, fun hst => ?_, fun started hst => ?_⟩
  · exact run_invariant (P := fun st => st ≠ .activationFailed)
      (fun _ _ _ _ he => (NodeState.edge_of_next he).ne_activationFailed) (by decide) hrun
  · have hcount := run_count (f := fun st => st.staked.toNat)
      (fun _ _ _ he => (NodeState.edge_of_next he).staked_add) hrun
    have hstart : NodeState.removed.staked.toNat = 0 := rfl
    omega
  · obtain ⟨before, e, after, heq, ⟨st₁, st₂, hout, hin, he⟩, hafter⟩ :=
      run_last_entry (by simp [NodeState.Producing]) hst hrun
    obtain ⟨blockNonce, rfl⟩ := (NodeState.edge_of_next he).of_not_producing hout hin
    refine ⟨before, blockNonce, after, heq, fun e' he' => ?_⟩
    obtain ⟨st₁, st₂, h₁, h₂, he'⟩ := hafter e' he'
    exact (NodeState.edge_of_next he').of_producing h₁ h₂
  · rw [NodeStore.getNodeBlockNonceOfUnstake_eq_some] at hst
    obtain ⟨before, e, after, heq, ⟨st₁, st₂, hout, hin, he⟩, hafter⟩ :=
      run_last_entry (P := NodeState.Unbonding started) (by simp [NodeState.Unbonding]) hst hrun
    obtain rfl := (NodeState.edge_of_next he).of_not_unbonding hout hin
    refine ⟨before, after, heq, fun e' he' => ?_⟩
    obtain ⟨st₁, st₂, h₁, h₂, he'⟩ := hafter e' he'
    exact (NodeState.edge_of_next he').of_unbonding h₁ h₂

/-- Two nodes are staked in one call, of which the auction contract refuses the second. The first is
unstaked at the second attempt, in block 70, and a request to unbond it is on its way. -/
theorem lifecycle_of_run_unbonding :
    ∃ (w₀ w : World) (trace : List Transition), Initial w₀ ∧
      Run (fun _ e => e.KeepsNodes) w₀ trace w ∧
      w.contract.nodes.getNodeState 5 = .pendingUnBond 70 ∧
      w.contract.nodes.getNodeState 6 = .inactive ∧ ∃ before after,
        nodeHistory trace 5 = before ++ .succeeded .auctionUnstake 70 :: after ∧
          ∀ e ∈ after, e = .sent .auctionUnbond ∨ e = .failed .auctionUnbond := by
  let events : List Event :=
    [.transaction (.plain 1 0 0) (.modifyTotalDelegationCap 0),
      .transaction (.plain 1 0 0) (.addNodes [(5, 50), (6, 60)]),
      .transaction (.plain 1 0 0) (.stakeNodes 0 [5, 6]), .answer 0 1 (.ok [(6, 1)]),
      .transaction (.plain 1 2 0) (.unStakeNodes [5]), .answer 0 3 (.err ""),
      .transaction (.plain 1 4 0) (.unStakeNodesAndTokens [5]), .answer 0 70 (.ok []),
      .transaction (.plain 1 80 0) .unBondAllPossibleNodes]
  have hstates : ((World.deploy 1 0 2 0 0 0 0 0).bind fun w₀ => (w₀.record events).map fun r =>
      (r.2.contract.nodes.getNodeState 5, r.2.contract.nodes.getNodeState 6)) =
      some (.pendingUnBond 70, .inactive) := by
    decide +kernel
  obtain ⟨w₀, hw₀, hstates⟩ := Option.bind_eq_some_iff.mp hstates
  obtain ⟨⟨trace, w⟩, hrecord, hobs⟩ := Option.map_eq_some_iff.mp hstates
  obtain ⟨hfirst, hsecond⟩ := Prod.mk.inj hobs
  have hinit := World.initial_deploy hw₀
  have hrun : Run (fun _ e => e.KeepsNodes) w₀ trace w := by
    refine World.run_record hrecord fun t ht => ?_
    have hmem := World.event_mem_of_record hrecord t ht
    simp only [events, List.mem_cons, List.not_mem_nil, or_false] at hmem
    rcases hmem with h | h | h | h | h | h | h | h | h <;> rw [h] <;> simp [Event.KeepsNodes]
  obtain ⟨-, -, -, -, hunbonding⟩ := (lifecycle_of_run hinit hrun).2 5
  exact ⟨w₀, w, trace, hinit, hrun, hfirst, hsecond, hunbonding 70 (.inr hfirst)⟩

end Delegation
