import Delegation.Latest.Moves

/-!
# Runs of the ledger

An event acts on the ledger once and then, if it starts or continues an operation, lets the machine
of that operation make some ticks. `Act` lists the acts, with the arrival of the payment as a part
of the act that uses it; `Step.acts` splits every step of the contract into an act and ticks.
Invariants of runs are therefore proved by cases on the acts and on the ticks.

Most acts have much in common: they change no setting, leave the operation in progress alone, and
move the checkpoint of a user, if at all, to the present rewards. `Ordinary` says so once.
-/

namespace Delegation

open Outcome FundStore

/-- The nonce of the block in which an event happens. -/
def Event.blockNonce : Event → UInt64
  | .transaction env _ => env.blockNonce
  | .answer _ blockNonce _ => blockNonce
  | .reward _ | .receive _ => 0

/-- A call of one of the two dust cleanups. -/
def Event.cleansDust : Event → Bool
  | .transaction _ (.dustCleanupWaitingList _) | .transaction _ (.dustCleanupActive _) => true
  | _ => false

/-- A call that works on an operation. -/
def Event.operates : Event → Bool
  | .transaction _ (.modifyTotalDelegationCap _) | .transaction _ (.setServiceFee _)
  | .transaction _ .continueGlobalOperation => true
  | _ => false

namespace Ledger

variable {s s' : Ledger}

/-! ### Acts -/

/-- What an event does to the ledger, but for the ticks of an operation. -/
inductive Act (s : Ledger) : Event → Ledger → Prop
  | answered {i : ℕ} {blockNonce : UInt64} {result : CallResult} (egld : ℕ) :
      Act s (.answer i blockNonce result) (s.credit egld)
  | received {egld : ℕ} : Act s (.receive egld) (s.credit egld)
  | rewarded {amount : ℕ} (hboot : s.bootstrapMode = false) :
      Act s (.reward amount) (s.arriveRewards amount)
  | kept {env : Env} {call : Call} {s' : Ledger} (hcall : call.administrative = true)
      (h : (s.credit env.payment).Kept env s') : Act s (.transaction env call) s'
  | staked {env : Env} {s' : Ledger} (h : (s.credit env.payment).Staked env s') :
      Act s (.transaction env .stake) s'
  | unStaked {env : Env} {amount : ℕ} {s' : Ledger} (hpay : env.payment = 0)
      (h : s.UnStaked env amount s') :
      Act s (.transaction env (.unStake amount)) s'
  | unBonded {env : Env} {paid : ℕ} {s' : Ledger} (hpay : env.payment = 0)
      (h : s.UnBonded env s' paid) :
      Act s (.transaction env .unBond) s'
  | claimed {env : Env} {amount : ℕ} {s' : Ledger} (hpay : env.payment = 0)
      (h : s.Claimed env s' amount) :
      Act s (.transaction env .claimRewards) s'
  | operated {env : Env} {op : Operation} {s₀ : Ledger} {orc : GlobalOpCheckpoint}
      (hpay : env.payment = 0) (hop : s.globalOpCheckpoint = .none)
      (howner : ∀ newTotalCap, op = .modifyTotalDelegationCap newTotalCap → env.caller = s.owner)
      (hopened : s.Opened op s₀ orc) : Act s (.transaction env op.call) (s₀.withOp orc)
  | continued {env : Env} (hpay : env.payment = 0) :
      Act s (.transaction env .continueGlobalOperation) s
  | waitingCleaned {env : Env} {dustLimit : ℕ} {s' : Ledger} (hpay : env.payment = 0)
      (h : s.WaitingCleaned env dustLimit s') :
      Act s (.transaction env (.dustCleanupWaitingList dustLimit)) s'
  | activeCleaned {env : Env} {dustLimit : ℕ} {s' : Ledger} (hpay : env.payment = 0)
      (h : s.ActiveCleaned env dustLimit s') :
      Act s (.transaction env (.dustCleanupActive dustLimit)) s'

theorem Opened.sound {op : Operation} {s₀ : Ledger} {orc : GlobalOpCheckpoint}
    (h : s.Opened op s₀ orc) (hs : s.FundsSound) : (s₀.withOp orc).FundsSound := by
  change FundStore.Sound Relied s₀.funds
  rw [h.funds]
  exact hs

end Ledger

namespace Contract

variable {c c' : Contract} {env : Env} {call : Call} {issued : Option AsyncCall}

/-- A transaction is an act and, if it works on an operation, some ticks. -/
theorem transaction_acts (hs : c.ledger.FundsSound) (hdust : c.ledger.DustTracked)
    (hzero : c.ledger.funds.userTotal 0 .withdrawOnly = 0)
    (h : c.transaction env call = .ok (c', issued)) :
    ∃ s₁, c.ledger.Act (.transaction env call) s₁ ∧
      Relation.ReflTransGen (Ledger.Ticked env.blockNonce) s₁ c'.ledger ∧
      ((Event.transaction env call).operates = false → c'.ledger = s₁) := by
  obtain ⟨_, hpayable, h⟩ := bind_eq_ok.mp h
  rw [require_eq_ok] at hpayable
  have hmoved : (c.ledger.credit env.payment).Moved env call c'.ledger :=
    endpoint_moved (c := c.credit env.payment) hs ⟨hdust.le_max, hdust.fundType⟩ hzero h
  -- without a payment, crediting it does nothing
  have hnone : call.payable = false → env.payment = 0 ∧ c.ledger.credit env.payment = c.ledger := by
    intro hp
    have hpay := hpayable.resolve_left (by simp [hp])
    rw [hpay]
    exact ⟨rfl, rfl⟩
  generalize hs' : c'.ledger = s' at hmoved ⊢
  cases hmoved with
  | kept hcall hk => exact ⟨_, .kept hcall hk, .refl, fun _ => rfl⟩
  | staked hm => exact ⟨_, .staked hm, .refl, fun _ => rfl⟩
  | unStaked hm =>
    obtain ⟨hpay, heq⟩ := hnone rfl
    exact ⟨_, .unStaked hpay (heq ▸ hm), .refl, fun _ => rfl⟩
  | unBonded hm =>
    obtain ⟨hpay, heq⟩ := hnone rfl
    exact ⟨_, .unBonded hpay (heq ▸ hm), .refl, fun _ => rfl⟩
  | claimed hm =>
    obtain ⟨hpay, heq⟩ := hnone rfl
    exact ⟨_, .claimed hpay (heq ▸ hm), .refl, fun _ => rfl⟩
  | @operated op s₀ _ orc hop howner hopened hcalled =>
    obtain ⟨hpay, heq⟩ := hnone (by cases op <;> rfl)
    rw [heq] at hop howner hopened
    exact ⟨_, .operated hpay hop howner hopened,
      (Ledger.ticks_of_reaches (hopened.sound hs) hcalled.reaches).2, by cases op <;> nofun⟩
  | continued hcalled =>
    obtain ⟨hpay, heq⟩ := hnone rfl
    rw [heq] at hcalled
    exact ⟨_, .continued hpay, (Ledger.ticks_of_reaches hs hcalled.reaches).2, nofun⟩
  | waitingCleaned hm =>
    obtain ⟨hpay, heq⟩ := hnone rfl
    exact ⟨_, .waitingCleaned hpay (heq ▸ hm), .refl, fun _ => rfl⟩
  | activeCleaned hm =>
    obtain ⟨hpay, heq⟩ := hnone rfl
    exact ⟨_, .activeCleaned hpay (heq ▸ hm), .refl, fun _ => rfl⟩

theorem returned_ledger (c : Contract) (call : AsyncCall) (result : CallResult) :
    ∃ egld, (c.returned call result).ledger = c.ledger.credit egld := by
  cases result with
  | ok => exact ⟨0, rfl⟩
  | err => exact ⟨call.egld, rfl⟩

theorem answer_ledger {blockNonce : UInt64} {call : AsyncCall} {result : CallResult}
    (h : c.answer blockNonce call result = .ok c') :
    ∃ egld, c'.ledger = c.ledger.credit egld := by
  obtain ⟨egld, hegld⟩ := c.returned_ledger call result
  refine ⟨egld, ?_⟩
  rw [← hegld]
  simp only [answer] at h
  cases hcall : call.callback with
  | none =>
    simp only [hcall, Except.ok.injEq] at h
    rw [h]
  | some callback =>
    simp only [hcall] at h
    obtain ⟨nodes, -, h⟩ := bind_eq_ok.mp h
    cases h
    rfl

end Contract

/-- **A step is an act and, if it works on an operation, some ticks.** -/
theorem Step.acts_ticks {w w' : World} {e : Event} (hs : w.contract.ledger.FundsSound)
    (hdust : w.contract.ledger.DustTracked)
    (hzero : w.contract.ledger.funds.userTotal 0 .withdrawOnly = 0) (h : Step w e w') :
    ∃ s₁, w.contract.ledger.Act e s₁ ∧
      Relation.ReflTransGen (Ledger.Ticked e.blockNonce) s₁ w'.contract.ledger ∧
      (e.operates = false → w'.contract.ledger = s₁) := by
  cases h with
  | transaction h => exact Contract.transaction_acts hs hdust hzero h
  | answer _ h =>
    obtain ⟨egld, hegld⟩ := Contract.answer_ledger h
    refine ⟨_, .answered egld, ?_⟩
    rw [hegld]
    exact ⟨.refl, fun _ => rfl⟩
  | @answerPanic _ _ result call =>
    obtain ⟨egld, hegld⟩ := w.contract.returned_ledger call result
    refine ⟨_, .answered egld, ?_⟩
    rw [hegld]
    exact ⟨.refl, fun _ => rfl⟩
  | reward h => exact ⟨_, .rewarded h, .refl, fun _ => rfl⟩
  | receive => exact ⟨_, .received, .refl, fun _ => rfl⟩

theorem Step.acts {w w' : World} {e : Event} (hs : w.contract.ledger.FundsSound)
    (hdust : w.contract.ledger.DustTracked)
    (hzero : w.contract.ledger.funds.userTotal 0 .withdrawOnly = 0) (h : Step w e w') :
    ∃ s₁, w.contract.ledger.Act e s₁ ∧
      Relation.ReflTransGen (Ledger.Ticked e.blockNonce) s₁ w'.contract.ledger := by
  obtain ⟨s₁, hact, hticks, -⟩ := h.acts_ticks hs hdust hzero
  exact ⟨s₁, hact, hticks⟩

namespace Ledger

variable {s s' s'' : Ledger} {env : Env} {e : Event} {u : ℕ}

/-! ### What most acts have in common -/

/-- The settings of the contract. -/
structure Settings where
  serviceFee : ℕ
  totalDelegationCap : ℕ
  ownerMinStakeShare : ℕ
  minStake : ℕ
  nBlocksBeforeUnbond : UInt64
  auctionAddr : Address
  owner : Address
  deriving DecidableEq

/-- The settings in the ledger. -/
@[simps]
def settings (s : Ledger) : Settings where
  serviceFee := s.serviceFee
  totalDelegationCap := s.totalDelegationCap
  ownerMinStakeShare := s.ownerMinStakeShare
  minStake := s.minStake
  nBlocksBeforeUnbond := s.nBlocksBeforeUnbond
  auctionAddr := s.auctionAddr
  owner := s.owner

/-- An act that touches neither the settings nor an operation, and that leaves a user's checkpoint
or moves it to the present rewards. -/
structure Ordinary (s s' : Ledger) : Prop where
  settings : s'.settings = s.settings
  cumulatedRewards : s'.cumulatedRewards = s.cumulatedRewards
  globalOpCheckpoint : s'.globalOpCheckpoint = s.globalOpCheckpoint
  bootstrapMode : s'.bootstrapMode = true → s.bootstrapMode = true
  checkpoint : ∀ u, s'.userRewCheckpoint u = s.userRewCheckpoint u ∨
    s'.userRewCheckpoint u = s.cumulatedRewards

theorem Ordinary.refl (s : Ledger) : Ordinary s s :=
  ⟨rfl, rfl, rfl, id, fun _ => .inl rfl⟩

theorem Ordinary.trans (h : Ordinary s s') (h' : Ordinary s' s'') : Ordinary s s'' where
  settings := h'.settings.trans h.settings
  cumulatedRewards := h'.cumulatedRewards.trans h.cumulatedRewards
  globalOpCheckpoint := h'.globalOpCheckpoint.trans h.globalOpCheckpoint
  bootstrapMode hb := h.bootstrapMode (h'.bootstrapMode hb)
  checkpoint u := by
    rcases h'.checkpoint u with heq | heq
    · exact (h.checkpoint u).imp heq.trans heq.trans
    · exact .inr (heq.trans h.cumulatedRewards)

theorem Ordinary.serviceFee (h : Ordinary s s') : s'.serviceFee = s.serviceFee :=
  congrArg Settings.serviceFee h.settings

theorem Ordinary.totalDelegationCap (h : Ordinary s s') :
    s'.totalDelegationCap = s.totalDelegationCap :=
  congrArg Settings.totalDelegationCap h.settings

theorem ordinary_of_funds (s : Ledger) (funds : FundStore) : Ordinary s { s with funds := funds } :=
  ⟨rfl, rfl, rfl, id, fun _ => .inl rfl⟩

theorem Settled.ordinary {users : ℕ → Prop} (h : Settled s s' users) : Ordinary s s' := by
  have hcp := h.checkpoint_cases
  rw [h.frame]
  exact ⟨rfl, rfl, rfl, id, hcp⟩

theorem Rebalanced.ordinary {deferred activated : ℕ → ℕ} {toDeferred toActive : ℕ}
    (h : Rebalanced s s' deferred activated toDeferred toActive) : Ordinary s s' := by
  have hcp := h.checkpoint
  have hboot : s'.bootstrapMode = true → s.bootstrapMode = true := fun hb => by
    by_contra hnot
    rw [(h.regular (by simpa using hnot)).1] at hb
    cases hb
  have hframe := h.frame
  exact ⟨by rw [hframe]; rfl, by rw [hframe], by rw [hframe], hboot, hcp⟩

theorem Deposited.ordinary {userId : ℕ} (h : Deposited s s' env userId) : Ordinary s s' := by
  rw [h.frame]
  exact ⟨rfl, rfl, rfl, id, fun _ => .inl rfl⟩

theorem ActiveSwept.ordinary {dustLimit : ℕ} (h : s.ActiveSwept dustLimit s') :
    Ordinary s s' := by
  have hcp := h.checkpoint
  have hframe := h.frame
  exact ⟨by rw [hframe]; rfl, by rw [hframe], by rw [hframe],
    fun hb => by rw [hframe] at hb; exact hb, hcp⟩

theorem Staked.ordinary (h : s.Staked env s') : Ordinary s s' := by
  obtain ⟨-, hdep, -, hre⟩ := h
  exact hdep.ordinary.trans hre.ordinary

theorem UnStaked.ordinary {amount : ℕ} (h : s.UnStaked env amount s') : Ordinary s s' := by
  cases h with
  | fromWaiting => exact ordinary_of_funds s _
  | @fromActive funds₁ funds₂ _ _ _ _ _ _ _ _ mid _ _ _ _ hset _ _ _ _ _ _ hre =>
    exact (((ordinary_of_funds s funds₁).trans hset.ordinary).trans
      (ordinary_of_funds mid funds₂)).trans hre.ordinary

theorem UnBonded.ordinary {paid : ℕ} (h : s.UnBonded env s' paid) : Ordinary s s' := by
  obtain ⟨-, -, -, -, -, -⟩ := h
  exact ⟨rfl, rfl, rfl, id, fun _ => .inl rfl⟩

theorem Claimed.ordinary {claimed : ℕ} (h : s.Claimed env s' claimed) : Ordinary s s' := by
  obtain ⟨-, -, -, -⟩ := h
  refine ⟨rfl, rfl, rfl, id, fun u => ?_⟩
  by_cases hu : u = s.userId env.caller
  · exact .inr (by simp [hu])
  · exact .inl (by simp [hu])

theorem WaitingCleaned.ordinary {dustLimit : ℕ} (h : s.WaitingCleaned env dustLimit s') :
    Ordinary s s' := by
  cases h <;> exact ⟨rfl, rfl, rfl, id, fun _ => .inl rfl⟩

theorem ActiveCleaned.ordinary {dustLimit : ℕ} (h : s.ActiveCleaned env dustLimit s') :
    Ordinary s s' := by
  obtain ⟨-, -, hset, hsw, hre⟩ := h
  exact (hset.ordinary.trans hsw.ordinary).trans hre.ordinary

/-- **Cleaning the active list is neutral for every user.** -/
theorem ActiveCleaned.neutral {dustLimit : ℕ} (h : s.ActiveCleaned env dustLimit s')
    (hboot : s.UpToDateInBootstrap) (hu : u ≠ 0) : Neutral s s' u := by
  obtain ⟨-, -, hset, hsw, hre⟩ := h
  have howner := hset.checkpoint_eq rfl
  refine ((hset.neutral u).trans (hsw.neutral howner u hu)).trans
    (hre.neutral (fun hb v => ?_) u hu)
  -- in bootstrap mode the checkpoints were up to date, and computing rewards keeps them so
  have hord := hset.ordinary.trans hsw.ordinary
  rw [hord.cumulatedRewards]
  exact (hord.checkpoint v).elim (fun heq => heq.trans (hboot (hord.bootstrapMode hb) v)) id

/-- Cleaning the waiting list is neutral for every user, if it cleans the waiting list. -/
theorem WaitingCleaned.neutral {dustLimit : ℕ} (h : s.WaitingCleaned env dustLimit s')
    (hactive : ∀ u, u ≠ 0 → s'.funds.userTotal u .active = s.funds.userTotal u .active)
    (htotal : s'.funds.typeTotal .active = s.funds.typeTotal .active) (hu : u ≠ 0) :
    Neutral s s' u := by
  refine .inl ?_
  cases h <;>
  · refine ⟨rfl, ?_⟩
    have hactive := hactive u hu
    simp only at hactive htotal
    simp only [rewardTerms, userStakeOfType_of_ne hu, userStakeOfType_zero, hactive, htotal]

end Ledger

end Delegation
