import Delegation.Latest.Consistent

/-!
# Lock times

Unstaked funds and deferred payments carry the nonce of the block in which they were created, and
cannot be withdrawn before the unbond period has passed since. `locked` is what a user holds under
one nonce. It grows only in that block, because the user unstakes or because a smaller cap forces
active stake out, and it shrinks only when the user unbonds after the period. Nothing else that
happens to the items, whoever causes it, moves a balance from one nonce to another.
-/

namespace Delegation

open Outcome FundStore Relation

/-- The descriptions that lock funds since the block `created`. -/
def FundDescription.locks (created : UInt64) : FundDescription → Bool
  | .unStaked c => c = created
  | .deferredPayment c => c = created
  | _ => false

namespace Ledger

variable {s s' : Ledger} {env : Env} {e : Event} {u : ℕ} {created nonce : UInt64}

/-- What the user `u` has locked since the block `created`. -/
def locked (s : Ledger) (u : ℕ) (created : UInt64) : ℕ :=
  s.funds.holding fun v d => v = u && d.locks created

theorem locked_congr (h : s'.funds = s.funds) (u : ℕ) (created : UInt64) :
    s'.locked u created = s.locked u created := by
  rw [locked, locked, h]

/-- Deferring keeps the nonce. -/
theorem locks_unstakedToDeferred {d d' : FundDescription} (h : unstakedToDeferred d = some d')
    (created : UInt64) : d'.locks created = d.locks created := by
  cases d <;> cases h
  rfl

/-- Replacing unstaked funds, whoever's they are, moves nothing from one nonce to another. -/
theorem Rebalanced.locked_eq {deferred activated : ℕ → ℕ} {toDeferred toActive : ℕ}
    (h : Rebalanced s s' deferred activated toDeferred toActive) (u : ℕ) (created : UInt64) :
    s'.locked u created = s.locked u created := by
  refine h.relabelled.holding_eq fun v d d' hR => ?_
  rcases hR with hR | ⟨hd, rfl⟩
  · rw [locks_unstakedToDeferred hR]
  · have hwaiting : d.locks created = false := by cases d <;> first | rfl | cases hd
    rw [hwaiting]
    rfl

theorem Staked.locked_eq (hs : s.FundsSound) (h : s.Staked env s') (u : ℕ) (created : UInt64) :
    s'.locked u created = s.locked u created := by
  obtain ⟨-, hdep, -, hre⟩ := h
  rw [hre.locked_eq, locked, hdep.funds, FundStore.Sound.createWaiting_holding hs]
  simp [locked, FundDescription.locks]

/-- Unstaking locks funds of the caller since this block, and nothing else. -/
theorem UnStaked.locked_cases {amount : ℕ} (h : s.UnStaked env amount s') (u : ℕ)
    (created : UInt64) : s.locked u created ≤ s'.locked u created ∧
      (s.locked u created < s'.locked u created →
        env.blockNonce = created ∧ s.userId env.caller = u) := by
  cases h with
  | @fromWaiting funds _ _ _ hsw =>
    have heq : { s with funds := funds }.locked u created = s.locked u created := by
      refine hsw.relabelled.holding_eq fun v d d' ⟨_, hd, hdd⟩ => ?_
      cases hdd
      cases d <;> first | rfl | cases hd
    exact ⟨heq.ge, fun hlt => absurd hlt (by omega)⟩
  | @fromActive funds₁ funds₂ _ _ _ _ _ _ _ _ mid _ _ _ hsw₁ _ hsw₂ _ _ _ _ _ hre =>
    have h₁ : { s with funds := funds₁ }.locked u created = s.locked u created := by
      refine hsw₁.relabelled.holding_eq fun v d d' ⟨_, hd, hdd⟩ => ?_
      cases hdd
      cases d <;> first | rfl | cases hd
    have hle : { s with funds := funds₁ }.locked u created ≤
        { mid with funds := funds₂ }.locked u created := by
      refine hsw₂.relabelled.le_holding fun v d d' ⟨_, hd, _⟩ hp => ?_
      have hactive : d.locks created = false := by cases d <;> first | rfl | cases hd
      rw [hactive, Bool.and_false] at hp
      cases hp
    rw [hre.locked_eq]
    refine ⟨by omega, fun hlt => ?_⟩
    -- the only new items are those of the caller and of this block
    by_contra hnot
    have hsame : { mid with funds := funds₂ }.locked u created ≤
        { s with funds := funds₁ }.locked u created := by
      refine hsw₂.relabelled.holding_le fun v d d' ⟨hv, _, hdd⟩ hp => ?_
      cases hdd
      simp only [FundDescription.locks, Bool.and_eq_true, decide_eq_true_eq] at hp
      exact absurd ⟨hp.2, hv.symm.trans hp.1⟩ hnot
    omega

/-- Unbonding unlocks funds of the caller whose time has come. -/
theorem UnBonded.locked_cases {paid : ℕ} (h : s.UnBonded env s' paid) (u : ℕ)
    (created : UInt64) : s'.locked u created ≤ s.locked u created ∧
      (s'.locked u created < s.locked u created →
        s.userId env.caller = u ∧ created + s.nBlocksBeforeUnbond ≤ env.blockNonce) := by
  obtain ⟨-, hsw, -, -, hpaid, -⟩ := h
  rename_i funds₁ funds₂ moved amount
  have hdestroyed : funds₂.holding (fun v d => v = u && d.locks created) =
      funds₁.holding fun v d => v = u && d.locks created := by
    refine hpaid.holding _ false fun d hd => ?_
    have hnone : d.locks created = false := by cases d <;> first | rfl | cases hd
    rw [hnone, Bool.and_false]
  simp only [locked, hdestroyed]
  refine ⟨hsw.relabelled.holding_le fun v d d' ⟨_, hd, hdd⟩ hp => ?_, fun hlt => ?_⟩
  · cases d <;> simp only [eligibleDeferredToWithdraw, reduceCtorEq] at hdd
    split_ifs at hdd
    cases hdd
    simp [FundDescription.locks] at hp
  · by_contra hnot
    have hsame : s.funds.holding (fun v d => v = u && d.locks created) ≤
        funds₁.holding fun v d => v = u && d.locks created := by
      refine hsw.relabelled.le_holding fun v d d' ⟨hv, hd, hdd⟩ hp => ?_
      cases d <;> simp only [eligibleDeferredToWithdraw, reduceCtorEq] at hdd
      split_ifs at hdd with hle
      simp only [FundDescription.locks, Bool.and_eq_true, decide_eq_true_eq] at hp
      obtain ⟨rfl, rfl⟩ := hp
      exact absurd ⟨hv.symm, hle⟩ hnot
    omega

/-! ### Ticks -/

/-- The operation in progress has active stake left to force out. -/
def ForcesOut (s : Ledger) : Prop :=
  ∃ mdcapData, s.globalOpCheckpoint = .modifyTotalDelegationCap mdcapData ∧
    0 < mdcapData.remainingSwapActiveToDefP

/-- A tick locks what it forces out, since the block in which it happens. -/
theorem Ticked.locked_cases (h : Ticked nonce s s') (u : ℕ) (created : UInt64) :
    s.locked u created ≤ s'.locked u created ∧
      (s.locked u created < s'.locked u created → nonce = created ∧ s.ForcesOut) := by
  have hsame : s'.locked u created = s.locked u created →
      s.locked u created ≤ s'.locked u created ∧
        (s.locked u created < s'.locked u created → nonce = created ∧ s.ForcesOut) :=
    fun heq => ⟨heq.ge, fun hlt => absurd hlt (by omega)⟩
  cases h with
  | activated _ _ hsw =>
    refine hsame (hsw.relabelled.holding_eq fun v d d' ⟨_, hd, hdd⟩ => ?_)
    cases hdd
    cases d <;> first | rfl | cases hd
  | unstakedDeferred _ _ hsw =>
    refine hsame (hsw.relabelled.holding_eq fun v d d' ⟨_, _, hdd⟩ => ?_)
    rw [locks_unstakedToDeferred hdd]
  | activeDeferred hop _ hsw hadd hpos =>
    refine ⟨hsw.relabelled.le_holding fun v d d' ⟨_, hd, _⟩ hp => ?_, fun hlt => ?_⟩
    · have hactive : d.locks created = false := by cases d <;> first | rfl | cases hd
      rw [hactive, Bool.and_false] at hp
      cases hp
    · refine ⟨?_, _, hop, by omega⟩
      by_contra hne
      refine absurd (hsw.relabelled.holding_le fun v d d' ⟨_, _, hdd⟩ hp => ?_) (not_le.mpr hlt)
      cases hdd
      simp only [FundDescription.locks, Bool.and_eq_true, decide_eq_true_eq] at hp
      exact absurd hp.2 hne
  | _ => exact hsame (locked_congr rfl u created)

/-- No tick adds to what is left to force out. -/
theorem Ticked.forcesOut (h : Ticked nonce s s') (hf : s'.ForcesOut) : s.ForcesOut := by
  obtain ⟨mdcapData', hop', hpos⟩ := hf
  cases h with
  | restarted hop _ | settled hop _ _ _ =>
    cases hcp : s.globalOpCheckpoint with
    | none => exact absurd hcp (computing_ne_none hop)
    | changeServiceFee =>
      simp only [withOp_globalOpCheckpoint, hcp, GlobalOpCheckpoint.withData, reduceCtorEq] at hop'
    | modifyTotalDelegationCap mdcapData =>
      simp only [withOp_globalOpCheckpoint, hcp, GlobalOpCheckpoint.withData,
        GlobalOpCheckpoint.modifyTotalDelegationCap.injEq] at hop'
      subst hop'
      exact ⟨mdcapData, hcp, hpos⟩
  | feeChanged | capChanged => cases hop'
  | rewardsComputed hop _ _ _ _ | activated hop _ _ _ _ | allActivated hop _ _
  | unstakedDeferred hop _ _ _ _ | allUnstakedDeferred hop _ _ =>
    cases hop'
    exact ⟨_, hop, hpos⟩
  | activeDeferred hop _ _ hadd _ =>
    cases hop'
    exact ⟨_, hop, by simp only at hpos; omega⟩

/-- What a run of ticks locks. -/
theorem Ticked.chain_locked (h : ReflTransGen (Ticked nonce) s s') (u : ℕ) (created : UInt64) :
    s.locked u created ≤ s'.locked u created ∧
      (s.locked u created < s'.locked u created → nonce = created ∧ s.ForcesOut) := by
  induction h using ReflTransGen.head_induction_on with
  | refl => exact ⟨le_rfl, fun hlt => absurd hlt (lt_irrefl _)⟩
  | head htick _ ih =>
    obtain ⟨hle, hlocks⟩ := htick.locked_cases u created
    refine ⟨hle.trans ih.1, fun hlt => ?_⟩
    rcases hle.lt_or_eq with hfirst | heq
    · exact hlocks hfirst
    · obtain ⟨hnonce, hforces⟩ := ih.2 (by omega)
      exact ⟨hnonce, htick.forcesOut hforces⟩

/-! ### Steps -/

/-- The cap that a new one is compared with. -/
def previousTotalCap (s : Ledger) : ℕ :=
  if s.bootstrapMode then s.maxAvailable else s.totalDelegationCap

/-- The events that may lock more funds of the user `u`. -/
inductive MayLock (s : Ledger) (u : ℕ) : Event → Prop
  | unStake {env : Env} {amount : ℕ} (h : s.userId env.caller = u) :
      MayLock s u (.transaction env (.unStake amount))
  | decreaseCap {env : Env} {newTotalCap : ℕ} (h : newTotalCap < s.previousTotalCap) :
      MayLock s u (.transaction env (.modifyTotalDelegationCap newTotalCap))
  | continueDecrease {env : Env} (h : s.ForcesOut) :
      MayLock s u (.transaction env .continueGlobalOperation)

/-- The events that may unlock funds of the user `u` that are locked since the block `created`:
those after the unbond period, unless the sum of nonces overflows. -/
inductive MayUnlock (s : Ledger) (u : ℕ) (created : UInt64) : Event → Prop
  | unBond {env : Env} (h : s.userId env.caller = u)
      (hdue : created.toNat + s.nBlocksBeforeUnbond.toNat < UInt64.size →
        created.toNat + s.nBlocksBeforeUnbond.toNat ≤ env.blockNonce.toNat) :
      MayUnlock s u created (.transaction env .unBond)

/-- An operation that forces out active stake decreases the cap. -/
theorem Opened.forcesOut {op : Operation} {s₀ : Ledger} {orc : GlobalOpCheckpoint}
    (h : s.Opened op s₀ orc) (hf : (s₀.withOp orc).ForcesOut) :
    ∃ newTotalCap, op = .modifyTotalDelegationCap newTotalCap ∧
      newTotalCap < s.previousTotalCap := by
  obtain ⟨mdcapData, hop, hpos⟩ := hf
  rw [withOp_globalOpCheckpoint] at hop
  cases h with
  | capChange hprevious _ hplan =>
    cases hop
    cases hplan with
    | increase => exact absurd hpos (lt_irrefl 0)
    | decrease hlt => exact ⟨_, rfl, by rwa [previousTotalCap, ← hprevious]⟩
  | _ => cases hop

/-- What starts or continues an operation that forces out active stake may lock funds. -/
theorem Act.mayLock (h : s.Act e s') (hop : e.operates = true) (hf : s'.ForcesOut) (u : ℕ) :
    s.MayLock u e := by
  cases h with
  | operated _ _ _ hopened =>
    obtain ⟨newTotalCap, rfl, hlt⟩ := hopened.forcesOut hf
    exact .decreaseCap hlt
  | continued => exact .continueDecrease hf
  | @kept _ call _ hcall =>
    cases call <;> simp_all [Event.operates, Call.administrative]
  | _ => cases hop

/-- **What an act locks and unlocks.** -/
theorem Act.locked_cases (hs : s.FundsSound) (h : s.Act e s') (hdust : e.cleansDust = false)
    (u : ℕ) (created : UInt64) :
    s'.locked u created = s.locked u created ∨
      (s.locked u created < s'.locked u created ∧ e.operates = false ∧ e.blockNonce = created ∧
        s.MayLock u e) ∨
      (s'.locked u created < s.locked u created ∧ e.operates = false ∧
        s.MayUnlock u created e) := by
  cases h with
  | kept _ h => exact .inl (locked_congr (congrArg Ledger.funds h.frame) u created)
  | staked h => exact .inl (h.locked_eq (s := s.credit _) hs u created)
  | unStaked _ h =>
    obtain ⟨hle, hlocks⟩ := h.locked_cases u created
    rcases hle.lt_or_eq with hlt | heq
    · obtain ⟨hnonce, hid⟩ := hlocks hlt
      exact .inr (.inl ⟨hlt, rfl, hnonce, .unStake hid⟩)
    · exact .inl heq.symm
  | unBonded _ h =>
    obtain ⟨hle, hunlocks⟩ := h.locked_cases u created
    rcases hle.lt_or_eq with hlt | heq
    · obtain ⟨hid, hdue⟩ := hunlocks hlt
      refine .inr (.inr ⟨hlt, rfl, .unBond hid fun hsize => ?_⟩)
      rw [UInt64.le_iff_toNat_le, UInt64.toNat_add, Nat.mod_eq_of_lt hsize] at hdue
      exact hdue
    · exact .inl heq
  | claimed _ h =>
    obtain ⟨-, -, -, -⟩ := h
    exact .inl rfl
  | operated _ _ _ hopened => exact .inl (locked_congr hopened.funds u created)
  | waitingCleaned | activeCleaned => cases hdust
  | answered | received | rewarded | continued => exact .inl rfl

end Ledger

open Ledger

/-- **Lock times are conserved.** In every reachable state, whatever happens next but a dust
cleanup: what a user has locked since some block grows only in that block, because the user
unstakes or because a decrease of the cap forces active stake out, and shrinks only when the user
unbonds after the unbond period. -/
theorem locked_of_reachable {w w' : World} {e : Event} (h : Reachable (fun _ _ => True) w)
    (hstep : Step w e w') (hdust : e.cleansDust = false) (u : ℕ) (created : UInt64) :
    (w.contract.ledger.locked u created < w'.contract.ledger.locked u created →
      e.blockNonce = created ∧ w.contract.ledger.MayLock u e) ∧
    (w'.contract.ledger.locked u created < w.contract.ledger.locked u created →
      w.contract.ledger.MayUnlock u created e) := by
  have hc := h.consistent
  obtain ⟨s₁, hact, hticks, hidle⟩ := hstep.acts_ticks hc.sound hc.dust (hc.userTotal_zero rfl)
  obtain ⟨hle, hlocks⟩ := Ticked.chain_locked hticks u created
  rcases hact.locked_cases hc.sound hdust u created with heq | ⟨hlt, hop, hnonce, hmay⟩ |
    ⟨hlt, hop, hmay⟩
  · rw [← heq]
    refine ⟨fun hlt => ?_, fun hlt => absurd hlt (by omega)⟩
    cases hop : e.operates with
    | false =>
      rw [hidle hop] at hlt
      exact absurd hlt (lt_irrefl _)
    | true =>
      obtain ⟨hnonce, hforces⟩ := hlocks hlt
      exact ⟨hnonce, hact.mayLock hop hforces u⟩
  · rw [hidle hop]
    exact ⟨fun _ => ⟨hnonce, hmay⟩, fun hlt' => absurd hlt' (by omega)⟩
  · rw [hidle hop]
    exact ⟨fun hlt' => absurd hlt' (by omega), fun _ => hmay⟩

/-- In block 2 a user unstakes 6, and in block 8 another 3; in block 12 the first are paid. -/
theorem locked_of_reachable_unBond :
    ∃ w w' : World, w'.contract.ledger.locked 2 2 < w.contract.ledger.locked 2 2 ∧
      w.contract.ledger.MayUnlock 2 2 (.transaction (.plain 7 12 9) .unBond) := by
  let events : List Event :=
    [.transaction { Env.plain 7 0 9 with payment := 10 } .stake,
      .transaction (.plain 7 2 9) (.unStake 6), .transaction (.plain 7 8 9) (.unStake 3)]
  have hrun : ((World.deploy 1 0 2 0 0 9 1 100).bind (·.run events)).bind (fun w =>
      (w.after (.transaction (.plain 7 12 9) .unBond)).map fun w' =>
        (w.contract.ledger.locked 2 2, w'.contract.ledger.locked 2 2)) = some (6, 0) := by
    decide +kernel
  obtain ⟨w, hw, hafter⟩ := Option.bind_eq_some_iff.mp hrun
  obtain ⟨w', hw', hobs⟩ := Option.map_eq_some_iff.mp hafter
  simp only [Prod.mk.injEq] at hobs
  obtain ⟨hbefore, hafter⟩ := hobs
  have hreach : Reachable (fun _ _ => True) w :=
    .run (fun _ h => World.initial_deploy h) (fun _ _ _ => trivial) hw
  have hlt : w'.contract.ledger.locked 2 2 < w.contract.ledger.locked 2 2 := by omega
  exact ⟨w, w', hlt, (locked_of_reachable hreach (World.step_after hw') rfl 2 2).2 hlt⟩

end Delegation
