import Delegation.Latest.Consistent

/-!
# Settings and nodes are the owner's

Callers other than the owner change no setting and no node, with one exception: `setServiceFee` does
not check who calls it. The documentation of the endpoint says that the owner sets it, and every
other endpoint that writes a setting has the check. `settings_eq_of_strangers` is about all runs of
such calls in which nobody uses the exception.
-/

namespace Delegation

open Outcome FundStore Relation

namespace Ledger

variable {s s' : Ledger} {env : Env} {call : Call}

/-- **A stranger changes no setting** and starts no operation, unless it sets another fee. -/
theorem Act.settings_of_stranger (h : s.Act (.transaction env call) s')
    (hop : s.globalOpCheckpoint = .none) (hcaller : env.caller ≠ s.owner)
    (hfee : ∀ fee, call = .setServiceFee fee → fee = s.serviceFee) :
    s'.settings = s.settings ∧ s'.globalOpCheckpoint = .none := by
  have hord : Ordinary s s' → s'.settings = s.settings ∧ s'.globalOpCheckpoint = .none := fun h =>
    ⟨h.settings, h.globalOpCheckpoint.trans hop⟩
  cases h with
  | kept _ h =>
    obtain ⟨hblocks, hmin⟩ := h.settings.resolve_left hcaller
    rw [h.frame]
    refine ⟨?_, hop⟩
    simp only [settings, hblocks, hmin]
    rfl
  | staked h =>
    have hordinary := h.ordinary
    exact ⟨hordinary.settings, hordinary.globalOpCheckpoint.trans hop⟩
  | unStaked _ h => exact hord h.ordinary
  | unBonded _ h => exact hord h.ordinary
  | claimed _ h => exact hord h.ordinary
  | continued => exact ⟨rfl, hop⟩
  | waitingCleaned _ h => exact hord h.ordinary
  | activeCleaned _ h => exact hord h.ordinary
  | operated _ _ howner hopened =>
    -- only the owner changes the cap, and the fee is the present one
    cases hopened with
    | capStored => exact absurd (howner _ rfl) hcaller
    | bootstrapEnded => exact absurd (howner _ rfl) hcaller
    | capKept => exact absurd (howner _ rfl) hcaller
    | capChange => exact absurd (howner _ rfl) hcaller
    | feeKept => exact ⟨rfl, rfl⟩
    | feeStored =>
      have := hfee _ rfl
      subst this
      exact ⟨rfl, rfl⟩
    | feeChange _ hne => exact absurd (hfee _ rfl).symm hne

end Ledger

namespace Contract

variable {c c' : Contract} {env : Env} {call : Call} {issued : Option AsyncCall}

theorem Administered.nodes_of_stranger (hcaller : env.caller ≠ c.ledger.owner)
    (h : c.Administered env call c' issued) : c'.nodes = c.nodes := by
  cases h with
  | nodesAdded howner | nodesRemoved howner | periodForced howner | nothingToUnbond howner
  | prepared howner => exact absurd howner hcaller
  | requested | settingWritten | addressesUpdated => rfl

/-- **A stranger changes no node.** -/
theorem endpoint_nodes_of_stranger (hcaller : env.caller ≠ c.ledger.owner)
    (h : c.endpoint env call = .ok (c', issued)) : c'.nodes = c.nodes := by
  cases hcall : call.administrative with
  | true => exact (endpoint_administered hcall h).nodes_of_stranger hcaller
  | false => exact (endpoint_onLedger hcall h).1

end Contract

/-! ### Sequences of calls -/

/-- A call by somebody else than the owner, of the kind that `allowed` says. -/
def StrangerCall (allowed : Ledger → Call → Prop) (w w' : World) : Prop :=
  ∃ env call, env.caller ≠ w.contract.ledger.owner ∧ allowed w.contract.ledger call ∧
    Step w (.transaction env call) w'

/-- Not a call of `setServiceFee` with another fee than the present one. -/
def KeepsServiceFee (s : Ledger) (call : Call) : Prop :=
  ∀ fee, call = .setServiceFee fee → fee = s.serviceFee

theorem StrangerCall.settings_eq {w w' : World} (hc : w.contract.ledger.Consistent)
    (hop : w.contract.ledger.globalOpCheckpoint = .none) (h : StrangerCall KeepsServiceFee w w') :
    w'.contract.ledger.settings = w.contract.ledger.settings ∧
      w'.contract.nodes = w.contract.nodes ∧
      w'.contract.ledger.globalOpCheckpoint = .none := by
  obtain ⟨env, call, hcaller, hfee, hstep⟩ := h
  obtain ⟨s₁, hact, hticks⟩ := hstep.acts hc.sound hc.dust (hc.userTotal_zero rfl)
  obtain ⟨hsettings, hop₁⟩ := hact.settings_of_stranger hop hcaller hfee
  rw [Ledger.Ticked.chain_eq hticks hop₁]
  refine ⟨hsettings, ?_, hop₁⟩
  cases hstep with
  | transaction htx =>
    obtain ⟨_, -, hend⟩ := bind_eq_ok.mp htx
    exact Contract.endpoint_nodes_of_stranger (c := w.contract.credit env.payment) hcaller hend

/-- **Settings change on the owner's initiative**, when nobody else sets another service fee: in
every run of calls by others, from a reachable state without an operation in progress, the settings
and the nodes stay as they are. -/
theorem settings_eq_of_strangers {w w' : World} (h : Reachable (fun _ _ => True) w)
    (hop : w.contract.ledger.globalOpCheckpoint = .none)
    (hrun : ReflTransGen (StrangerCall KeepsServiceFee) w w') :
    w'.contract.ledger.settings = w.contract.ledger.settings ∧
      w'.contract.nodes = w.contract.nodes := by
  suffices hall : w'.contract.ledger.settings = w.contract.ledger.settings ∧
      w'.contract.nodes = w.contract.nodes ∧
      w'.contract.ledger.globalOpCheckpoint = .none ∧ w'.contract.ledger.Consistent from
    ⟨hall.1, hall.2.1⟩
  induction hrun with
  | refl => exact ⟨rfl, rfl, hop, h.consistent⟩
  | tail _ hlast ih =>
    obtain ⟨hsettings, hnodes, hop₁, hc⟩ := ih
    obtain ⟨hsettings', hnodes', hop'⟩ := hlast.settings_eq hc hop₁
    obtain ⟨env, call, -, -, hstep⟩ := hlast
    exact ⟨hsettings'.trans hsettings, hnodes'.trans hnodes, hop', hstep.consistent hc⟩

/-- A delegator stakes. -/
theorem settings_eq_of_strangers_stake :
    ∃ w w' : World, w.contract.ledger.funds.fundMaxId < w'.contract.ledger.funds.fundMaxId ∧
      w'.contract.ledger.settings = w.contract.ledger.settings ∧
      w'.contract.nodes = w.contract.nodes := by
  let env : Env := { Env.plain 7 0 9 with payment := 5 }
  have hrun : ((World.deploy 1 0 2 1000 0 9 1 100).bind fun w =>
      (w.after (.transaction env .stake)).map fun w' =>
        (w.contract.ledger.owner, w.contract.ledger.globalOpCheckpoint,
          w.contract.ledger.funds.fundMaxId, w'.contract.ledger.funds.fundMaxId)) =
        some (1, .none, 0, 2) := by
    decide +kernel
  obtain ⟨w, hw, hafter⟩ := Option.bind_eq_some_iff.mp hrun
  obtain ⟨w', hw', hobs⟩ := Option.map_eq_some_iff.mp hafter
  simp only [Prod.mk.injEq] at hobs
  obtain ⟨howner, hop, hbefore, hafter⟩ := hobs
  refine ⟨w, w', by omega, settings_eq_of_strangers (.initial (World.initial_deploy hw)) hop
    (.single ⟨env, .stake, ?_, nofun, World.step_after hw'⟩)⟩
  rw [howner]
  decide

/-- **Anybody can set the service fee**: a stranger takes it from 1000 to 5000. -/
theorem not_settings_eq_of_strangers :
    ¬ ∀ w w' : World, Reachable (fun _ _ => True) w →
      w.contract.ledger.globalOpCheckpoint = .none →
      ReflTransGen (StrangerCall fun _ _ => True) w w' →
      w'.contract.ledger.settings = w.contract.ledger.settings ∧
        w'.contract.nodes = w.contract.nodes := by
  intro hall
  have hrun : ((World.deploy 1 0 2 1000 0 9 1 100).bind fun w =>
      (w.after (.transaction (.plain 7 0 9) (.setServiceFee 5000))).map fun w' =>
        (w.contract.ledger.owner, w.contract.ledger.globalOpCheckpoint,
          w.contract.ledger.serviceFee, w'.contract.ledger.serviceFee)) =
        some (1, .none, 1000, 5000) := by
    decide +kernel
  obtain ⟨w, hw, hafter⟩ := Option.bind_eq_some_iff.mp hrun
  obtain ⟨w', hw', hobs⟩ := Option.map_eq_some_iff.mp hafter
  simp only [Prod.mk.injEq] at hobs
  obtain ⟨howner, hop, hbefore, hafter⟩ := hobs
  have hcaller : (Env.plain 7 0 9).caller ≠ w.contract.ledger.owner := by
    rw [howner]
    decide
  have hsame := hall w w' (.initial (World.initial_deploy hw)) hop
    (.single ⟨_, _, hcaller, trivial, World.step_after hw'⟩)
  have := congrArg Ledger.Settings.serviceFee hsame.1
  simp only [Ledger.settings_serviceFee] at this
  omega

end Delegation
