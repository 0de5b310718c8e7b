import Delegation.Node.Numbered
import Delegation.Latest.NodeCalls

/-!
# The registry of nodes over a run

Between two calls of `addNodes` and `removeNodes` the other endpoints move the nodes from state to
state, the answers of the auction contract do so too, and `forceNodeUnBondPeriod` overwrites any
state. None of them touches the keys, the ids or the signatures (`Contract.registration_endpoint`,
`NodeStore.registration_runCallback`), so a step of a run changes the registry in one of three ways
(`NodeStore.Change`), and each of them keeps the numbering.
-/

namespace Delegation

open Outcome

namespace NodeStore

variable {s s' : NodeStore} {n : ℕ} {blsKey : BLSKey}

/-! ### Loops that only set states -/

/-- The rule for a loop over a state that contains the registry. -/
theorem registration_foldlM {β γ : Type} {f : β → NodeStore} {g : β → γ → Exec β}
    (hg : ∀ b c b', g b c = .ok b' → (f b').registration = (f b).registration)
    {cs : List γ} {b b' : β} (h : cs.foldlM g b = .ok b') :
    (f b').registration = (f b).registration := by
  have hfold : Spec (cs.foldlM g b) (fun b' => (f b').registration = (f b).registration)
      (fun _ => True) :=
    Spec.foldlM (J := fun _ b' => (f b').registration = (f b).registration) rfl
      fun _ c b₁ _ hb₁ => Spec.of_forall_ok fun b₂ hb₂ => (hg b₁ c b₂ hb₂).trans hb₁
  exact hfold.of_ok h

theorem registration_prepareStakeNode
    {c c' : NodeStore × NodeIndexArrayVec × List (BLSKey × BLSSignature)}
    (h : prepareStakeNode c blsKey = .ok c') : c'.1.registration = c.1.registration := by
  obtain ⟨_, -, h⟩ := bind_eq_ok.mp h
  obtain ⟨_, -, h⟩ := bind_eq_ok.mp h
  obtain ⟨_, -, h⟩ := bind_eq_ok.mp h
  cases h
  rfl

theorem registration_prepareUnstakeNode (h : s.prepareUnstakeNode n = .ok s') :
    s'.registration = s.registration := by
  obtain ⟨_, -, h⟩ := bind_eq_ok.mp h
  cases h
  rfl

theorem registration_prepareNodeForUnbondIfPossible (s : NodeStore) (n : ℕ) :
    (s.prepareNodeForUnbondIfPossible n).1.registration = s.registration := by
  rcases s.prepareNodeForUnbondIfPossible_cases n with ⟨st, -, heq⟩ | heq
  · rw [heq]
    rfl
  · rw [heq]

theorem registration_prepareUnbondNode {c c' : NodeStore × NodeIndexArrayVec}
    (h : prepareUnbondNode c blsKey = .ok c') : c'.1.registration = c.1.registration := by
  obtain ⟨_, -, h⟩ := bind_eq_ok.mp h
  obtain ⟨_, -, h⟩ := bind_eq_ok.mp h
  obtain ⟨_, -, h⟩ := bind_eq_ok.mp h
  cases h
  exact registration_prepareNodeForUnbondIfPossible _ _

theorem registration_prepareUnbondIfPossible {c c' : NodeStore × NodeIndexArrayVec × List BLSKey}
    (h : prepareUnbondIfPossible c n = .ok c') : c'.1.registration = c.1.registration := by
  have hone := c.1.registration_prepareNodeForUnbondIfPossible n
  simp only [prepareUnbondIfPossible] at h
  split_ifs at h
  · obtain ⟨_, -, h⟩ := bind_eq_ok.mp h
    cases h
    exact hone
  · cases h
    exact hone

theorem registration_forceUnbondPeriod (h : s.forceUnbondPeriod blsKey = .ok s') :
    s'.registration = s.registration := by
  obtain ⟨_, -, h⟩ := bind_eq_ok.mp h
  cases h
  rfl

theorem registration_revertUnbond (h : s.revertUnbond n = .ok s') :
    s'.registration = s.registration := by
  unfold revertUnbond at h
  split at h
  · cases h
    rfl
  · cases h

/-- **No loop of an endpoint touches the keys** of the nodes that it prepares. -/
theorem Prepares.registration_eq {kind : CallbackKind} {nodeIds : NodeIndexArrayVec}
    (h : s.Prepares kind s' nodeIds) : s'.registration = s.registration := by
  cases h with
  | stake h =>
    exact registration_foldlM (f := Prod.fst) (fun _ _ _ h => registration_prepareStakeNode h) h
  | unstake h =>
    exact registration_foldlM (f := id) (fun _ _ _ h => registration_prepareUnstakeNode h) h
  | unbond h =>
    exact registration_foldlM (f := Prod.fst) (fun _ _ _ h => registration_prepareUnbondNode h) h
  | unbondAll h =>
    exact registration_foldlM (f := Prod.fst)
      (fun _ _ _ h => registration_prepareUnbondIfPossible h) h

/-! ### Callbacks -/

theorem registration_finishCall {callbackOk callbackFail : NodeStore → List ℕ → Exec NodeStore}
    (hok : ∀ s ids s', callbackOk s ids = .ok s' → s'.registration = s.registration)
    (hfail : ∀ s ids s', callbackFail s ids = .ok s' → s'.registration = s.registration)
    {v : NodeIndexArrayVec} {result : CallResult}
    (h : s.finishCall callbackOk callbackFail v result = .ok s') :
    s'.registration = s.registration := by
  cases result with
  | err _ => exact hfail _ _ _ h
  | ok args =>
    obtain ⟨_, -, h⟩ := bind_eq_ok.mp h
    obtain ⟨s₁, h₁, h⟩ := bind_eq_ok.mp h
    exact (hfail _ _ _ h).trans (hok _ _ _ h₁)

/-- A callback that sets the same state for all nodes of its part. -/
theorem registration_of_setNodeStates {st : NodeState} (s : NodeStore) (ids : List ℕ)
    (s' : NodeStore) (h : Except.ok (s.setNodeStates ids st) = (.ok s' : Exec NodeStore)) :
    s'.registration = s.registration := by
  cases h
  exact registration_setNodeStates ids st

/-- **No callback touches the keys**, whatever nodes it is about and whatever their states. -/
theorem registration_runCallback {blockNonce : UInt64} {callback : Callback} {result : CallResult}
    (h : s.runCallback blockNonce callback result = .ok s') : s'.registration = s.registration := by
  unfold runCallback at h
  cases hkind : callback.kind with
  | auctionStake | auctionUnstake =>
    rw [hkind] at h
    exact registration_finishCall registration_of_setNodeStates registration_of_setNodeStates h
  | auctionUnbond =>
    rw [hkind] at h
    exact registration_finishCall registration_of_setNodeStates
      (fun _ _ _ hids => registration_foldlM (f := id)
        (fun _ _ _ h => registration_revertUnbond h) hids) h

/-! ### What a step does to the registry -/

/-- Nodes are added, or removed, or only their states change. -/
inductive Change : NodeStore → NodeStore → Prop
  | addNodes {s s' : NodeStore} {pairs : List (BLSKey × BLSSignature)}
      (h : s.addNodes pairs = .ok s') : Change s s'
  | removeNodes {s s' : NodeStore} {blsKeys : List BLSKey} (h : s.removeNodes blsKeys = .ok s') :
      Change s s'
  | states {s s' : NodeStore} (h : s'.registration = s.registration) : Change s s'

/-- A later registry: no key changes its id, no id its key, and new keys have new ids. -/
structure RegistryExtends (s s' : NodeStore) : Prop where
  ids : Ids.Extends s.nodeBlsToId s.numNodes s'.nodeBlsToId s'.numNodes
  keys : ∀ n, n ≠ 0 → n ≤ s.numNodes → s'.nodeIdToBls n = s.nodeIdToBls n

theorem RegistryExtends.refl (s : NodeStore) : RegistryExtends s s :=
  ⟨.refl _ _, fun _ _ _ => rfl⟩

theorem RegistryExtends.trans {s'' : NodeStore} (h : RegistryExtends s s')
    (h' : RegistryExtends s' s'') : RegistryExtends s s'' := by
  refine ⟨h.ids.trans h'.ids, fun n hn hle => ?_⟩
  rw [h'.keys n hn (hle.trans h.ids.last_le), h.keys n hn hle]

/-- Where the ids are kept, so are the keys. -/
theorem Numbered.registryExtends (h : s.Numbered s.numNodes) (h' : s'.Numbered s'.numNodes)
    (hids : Ids.Extends s.nodeBlsToId s.numNodes s'.nodeBlsToId s'.numNodes) :
    RegistryExtends s s' := by
  refine ⟨hids, fun n hn hle => ?_⟩
  obtain ⟨key, rfl⟩ := h.numbering.surjective n hn hle
  have hkept := hids.kept key hn
  rw [h.key_of_id key hn, ← hkept]
  exact h'.key_of_id key (hkept ▸ hn)

/-- Where only the states change, keys and ids stay. -/
theorem Numbered.of_states (h : s.Numbered s.numNodes) (heq : s'.registration = s.registration) :
    s'.Numbered s'.numNodes ∧ RegistryExtends s s' := by
  have h' := h.congr heq
  refine ⟨h', h.registryExtends h' ?_⟩
  simp only [registration, Prod.mk.injEq] at heq
  rw [heq.1, heq.2.1]
  exact .refl _ _

/-- **The step lemma.** -/
theorem Change.numbered (h : Change s s') (hs : s.Numbered s.numNodes) :
    s'.Numbered s'.numNodes ∧ RegistryExtends s s' := by
  cases h with
  | addNodes h =>
    have hadded := (addNodes_added hs _).of_ok h
    exact ⟨hadded.numbered, hs.registryExtends hadded.numbered hadded.ids⟩
  | removeNodes h =>
    refine hs.of_states ?_
    rw [((removeNodes_removedAll s _).of_ok h).eq]
    rfl
  | states heq => exact hs.of_states heq

end NodeStore

namespace Contract

open NodeStore

variable {c c' : Contract} {env : Env} {call : Call} {issued : Option AsyncCall}

theorem Administered.change (h : c.Administered env call c' issued) :
    Change c.nodes c'.nodes := by
  cases h with
  | nodesAdded _ h => exact .addNodes h
  | nodesRemoved _ h => exact .removeNodes h
  | periodForced _ h =>
    exact .states
      (registration_foldlM (f := id) (fun _ _ _ h => registration_forceUnbondPeriod h) h)
  | nothingToUnbond _ hprepares | prepared _ hprepares => exact .states hprepares.registration_eq
  | requested | settingWritten | addressesUpdated => exact .states rfl

/-- **Every endpoint** adds nodes, removes nodes, or leaves the registration alone. -/
theorem endpoint_change (h : c.endpoint env call = .ok (c', issued)) :
    Change c.nodes c'.nodes := by
  cases hcall : call.administrative with
  | true => exact (endpoint_administered hcall h).change
  | false => exact .states (by rw [(endpoint_onLedger hcall h).1])

end Contract

/-! ### Runs -/

section Runs

open NodeStore

variable {w w' : World} {e : Event}

theorem Step.nodes_change (hs : Step w e w') : Change w.contract.nodes w'.contract.nodes := by
  cases hs with
  | transaction htx =>
    obtain ⟨_, -, h⟩ := bind_eq_ok.mp htx
    exact Contract.endpoint_change (c := w.contract.credit _) h
  | @answer i blockNonce result call c hi hc =>
    have hnodes : (w.contract.returned call result).nodes = w.contract.nodes := by
      cases result <;> rfl
    unfold Contract.answer at hc
    cases hcall : call.callback with
    | none =>
      simp only [hcall] at hc
      cases hc
      exact .states (by rw [hnodes])
    | some callback =>
      simp only [hcall] at hc
      obtain ⟨nodes, hrun, hc⟩ := bind_eq_ok.mp hc
      cases hc
      rw [hnodes] at hrun
      exact .states (registration_runCallback hrun)
  | @answerPanic _ _ result call _ _ _ =>
    refine .states ?_
    cases result <;> rfl
  | reward | receive => exact .states rfl

/-- The registry is numbered in every state of every run. -/
theorem numbered_of_reachable (h : Reachable (fun _ _ => True) w) :
    w.contract.nodes.Numbered w.contract.nodes.numNodes := by
  refine h.invariant (fun w h => ?_) fun _ _ _ hw _ hs => (hs.nodes_change.numbered hw).1
  obtain ⟨hinit⟩ := h
  obtain ⟨_, -, hinit⟩ := bind_eq_ok.mp hinit
  obtain ⟨_, -, hinit⟩ := bind_eq_ok.mp hinit
  cases hinit
  exact numbered_empty

/-- Whatever happens, the registry only grows. -/
theorem registryExtends_of_run (hw : w.contract.nodes.Numbered w.contract.nodes.numNodes)
    (hrun : Relation.ReflTransGen (fun w w' => ∃ e, Step w e w') w w') :
    w'.contract.nodes.Numbered w'.contract.nodes.numNodes ∧
      RegistryExtends w.contract.nodes w'.contract.nodes := by
  induction hrun with
  | refl => exact ⟨hw, .refl _⟩
  | tail _ hlast ih =>
    obtain ⟨e, hs⟩ := hlast
    obtain ⟨hnumbered, hext⟩ := hs.nodes_change.numbered ih.1
    exact ⟨hnumbered, ih.2.trans hext⟩

/-- **The node registry is a bijection.** In every state of every run: ids and keys are inverse to
each other between the registered keys and `1..=num_nodes`, and `getAllNodeStates` lists every
registered key once. Nothing that can happen later changes the id of a key or the key of an id, or
gives an id a second time. An `addNodes` that succeeds names no key twice, gives the unknown ones
the next ids in the order of the list, and leaves all listed nodes inactive with the signatures
given for them; a `removeNodes` that succeeds leaves the listed nodes removed and changes nothing
else. -/
theorem nodeRegistry_bijection (h : Reachable (fun _ _ => True) w) :
    let s := w.contract.nodes
    (Set.BijOn s.nodeBlsToId {key | s.nodeBlsToId key ≠ 0} (Set.Icc 1 s.numNodes) ∧
      Set.InvOn s.nodeIdToBls s.nodeBlsToId {key | s.nodeBlsToId key ≠ 0} (Set.Icc 1 s.numNodes)) ∧
    ((s.getAllNodeStates.map Prod.fst).Nodup ∧
      ∀ key d, (key, d) ∈ s.getAllNodeStates ↔
        s.nodeBlsToId key ≠ 0 ∧ d = (s.nodeState (s.nodeBlsToId key)).discriminant) ∧
    (∀ w', Relation.ReflTransGen (fun w w' => ∃ e, Step w e w') w w' →
      RegistryExtends s w'.contract.nodes) ∧
    (∀ env pairs c issued, w.contract.transaction env (.addNodes pairs) = .ok (c, issued) →
      Added s pairs (c.nodes, c.nodes.numNodes)) ∧
    ∀ env blsKeys c issued, w.contract.transaction env (.removeNodes blsKeys) = .ok (c, issued) →
      RemovedAll s blsKeys c.nodes ∧ c = { w.contract with nodes := c.nodes } := by
  intro s
  have hs : s.Numbered s.numNodes := numbered_of_reachable h
  refine ⟨⟨hs.numbering.bijOn, hs.invOn⟩, hs.getAllNodeStates,
    fun w' hrun => (registryExtends_of_run hs hrun).2, fun env pairs c issued htx => ?_,
    fun env blsKeys c issued htx => ?_⟩
  · obtain ⟨_, -, hcall⟩ := bind_eq_ok.mp htx
    obtain ⟨-, rfl, nodes, hnodes, rfl⟩ := Contract.onNodes_eq_ok hcall
    exact (addNodes_added hs pairs).of_ok hnodes
  · obtain ⟨_, hpay, hcall⟩ := bind_eq_ok.mp htx
    have hzero : env.payment = 0 := (require_eq_ok.mp hpay).resolve_left (by simp [Call.payable])
    obtain ⟨-, rfl, nodes, hnodes, rfl⟩ := Contract.onNodes_eq_ok hcall
    refine ⟨(removeNodes_removedAll s blsKeys).of_ok hnodes, ?_⟩
    rw [hzero]
    rfl

/-- Two nodes are added and the first is removed; then it is added again, together with a third one.
-/
theorem nodeRegistry_bijection_readded : ∃ w w' : World,
    w.contract.nodes.getAllNodeStates = [(5, 7), (6, 0)] ∧
    w'.contract.nodes.getAllNodeStates = [(5, 0), (6, 0), (7, 0)] ∧
    w'.contract.nodes.nodeBlsToId 5 = 1 ∧ w'.contract.nodes.nodeIdToBls 1 = 5 ∧
    w'.contract.nodes.nodeSignature 1 = 51 ∧
    Set.BijOn w'.contract.nodes.nodeBlsToId {key | w'.contract.nodes.nodeBlsToId key ≠ 0}
      (Set.Icc 1 3) := by
  let before : List Event :=
    [.transaction (.plain 1 0 9) (.addNodes [(5, 50), (6, 60)]),
      .transaction (.plain 1 0 9) (.removeNodes [5])]
  let again : List (BLSKey × BLSSignature) := [(5, 51), (7, 70)]
  have hrun : ((World.deploy 1 0 2 0 0 9 1 100).bind (·.run before)).bind (fun w =>
      (w.after (.transaction (.plain 1 0 9) (.addNodes again))).map fun w' =>
        ((w.contract.nodes.getAllNodeStates, w'.contract.nodes.getAllNodeStates),
          w.contract.nodes.nodeBlsToId 5, w'.contract.nodes.numNodes)) =
      some (([(5, 7), (6, 0)], [(5, 0), (6, 0), (7, 0)]), 1, 3) := by
    decide +kernel
  obtain ⟨w, hw, hrun⟩ := Option.bind_eq_some_iff.mp hrun
  obtain ⟨w', hw', hobs⟩ := Option.map_eq_some_iff.mp hrun
  simp only [Prod.mk.injEq] at hobs
  obtain ⟨⟨hstates, hstates'⟩, hid, hnum⟩ := hobs
  have hreach : Reachable (fun _ _ => True) w :=
    .run (fun _ h => World.initial_deploy h) (fun _ _ _ => trivial) hw
  have hstep : Step w (.transaction (.plain 1 0 9) (.addNodes again)) w' := World.step_after hw'
  obtain ⟨-, -, hgrows, hadd, -⟩ := nodeRegistry_bijection hreach
  have hkept := (hgrows w' (.single ⟨_, hstep⟩)).ids.kept 5 (by rw [hid]; decide)
  rw [hid] at hkept
  have hsig : w'.contract.nodes.nodeSignature (w'.contract.nodes.nodeBlsToId 5) = 51 := by
    cases hstep with
    | transaction htx => exact ((hadd _ _ _ _ htx).listed (5, 51) List.mem_cons_self).2.2
  obtain ⟨⟨hbij, hinv⟩, -⟩ := nodeRegistry_bijection (hreach.step trivial hstep)
  have hmem : (5 : BLSKey) ∈ {key | w'.contract.nodes.nodeBlsToId key ≠ 0} := by
    rw [Set.mem_ofPred_eq, hkept]
    decide
  have hkey := hinv.1 hmem
  rw [hkept] at hkey hsig
  rw [hnum] at hbij
  exact ⟨w, w', hstates, hstates', hkept, hkey, hsig, hbij⟩

end Runs

end Delegation
