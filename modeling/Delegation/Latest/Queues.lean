import Delegation.Fund.Tickets
import Delegation.Latest.Acts
import Delegation.Latest.Trace

/-!
# The contract keeps a book, and serves in order

Seen through its book, the contract is a machine with eight operations. `operations_of_run` says
which of them a call can perform, for every run without dust cleanups: users add to the book, take
back and unstake under their own id only, what happens to the stake of others is activation and
deferral from the front of a queue, and active stake is forced out by an operation on the cap only.
The store is well formed all along.

`fifo_of_run` draws the conclusion for the two queues that users wait in.
-/

namespace Delegation

open Outcome Loop FundStore Relation

/-- Activation and deferral. -/
def Book.Op.IsService : Book.Op → Prop
  | .activate _ _ | .defer _ _ => True
  | _ => False

/-- What a call of a user may do to the book; `nBlocksBeforeUnbond` is the setting. -/
def Book.Op.Permitted (userId : ℕ) (nBlocksBeforeUnbond : UInt64) (env : Env) (call : Call) :
    Book.Op → Prop
  | .deposit user created amount =>
      call = .stake ∧ user = userId ∧ created = env.blockNonce ∧ amount = env.payment
  | .withdraw user amount => call = .unStake amount ∧ user = userId
  | .unStake user created amount =>
      (∃ requested, call = .unStake requested ∧ amount ≤ requested) ∧ user = userId ∧
        created = env.blockNonce
  | .activate _ _ | .defer _ _ =>
      call = .stake ∨ (∃ requested, call = .unStake requested) ∨
        (Event.transaction env call).operates = true
  | .forceOut created _ _ =>
      (Event.transaction env call).operates = true ∧ created = env.blockNonce
  | .mature user nonce nBlocks _ =>
      call = .unBond ∧ user = userId ∧ nonce = env.blockNonce ∧ nBlocks = nBlocksBeforeUnbond
  | .pay user => call = .unBond ∧ user = userId

namespace Ledger

variable {s s' : Ledger} {env : Env} {permitted : Book.Op → Prop}

/-! ### The functions of the contract perform operations -/

theorem swapWaitingToActiveComputeRewards_performed (hs : s.funds.WellFormed)
    (hservice : ∀ op, op.IsService → permitted op) (swappable : ℕ) :
    Spec (s.swapWaitingToActiveComputeRewards swappable)
      (fun s' => Performed permitted s.funds s'.funds) (fun _ => True) := by
  refine Spec.bind (P := fun r => r.1 = s.funds)
    ((FundStore.Sound.getAffectedUsersOfSwapWaitingToActive hs trivial swappable never).mono
      (fun _ hr => hr.1) fun _ _ => trivial) fun r hr => ?_
  obtain ⟨funds, affectedUsers, remaining⟩ := r
  obtain rfl : funds = s.funds := hr
  refine Spec.bind (spec_require fun _ => trivial) fun _ _ => ?_
  refine Spec.bind ((s.computeOneUserReward_spec ownerUserId).mono (fun _ h => h.funds)
    fun _ _ => trivial) fun s₁ hs₁ => ?_
  refine Spec.bind ((s₁.computeAffectedUserRewards_spec affectedUsers).mono
    (fun _ h => h.funds.trans hs₁) fun _ _ => trivial) fun s₂ hs₂ => ?_
  rw [hs₂]
  refine Spec.bind (hs.swapWaitingToActive swappable never) fun r hr => ?_
  refine Spec.bind (spec_require fun _ => trivial) fun _ _ => ?_
  exact hr.performed (hservice _ trivial)

theorem useWaitingToReplaceUnstaked_performed (hs : s.funds.WellFormed)
    (hservice : ∀ op, op.IsService → permitted op) :
    Spec s.useWaitingToReplaceUnstaked (fun s' => Performed permitted s.funds s'.funds)
      (fun _ => True) := by
  simp only [useWaitingToReplaceUnstaked]
  split_ifs with hboot hzero
  · refine Spec.bind (hs.swapUnstakedToDeferredPayment _ never) fun r hr => ?_
    refine Spec.bind (spec_require fun _ => trivial) fun _ _ => ?_
    refine Spec.bind ((spec_bigSub_arith _ _).mono (fun _ h => h) fun _ _ => trivial)
      fun fillable _ => ?_
    refine Spec.bind (hr.wellFormed.swapWaitingToActive fillable never) fun r' hr' => ?_
    exact (hr.performed (hservice _ trivial)).trans (hr'.performed (hservice _ trivial))
  · exact ReflTransGen.refl
  · refine Spec.bind (hs.swapUnstakedToDeferredPayment _ never) fun r hr => ?_
    refine Spec.bind (spec_require fun _ => trivial) fun _ _ => ?_
    refine (swapWaitingToActiveComputeRewards_performed (s := { s with funds := r.1 })
      hr.wellFormed hservice _).imp fun s' hs' => ?_
    exact (hr.performed (hservice _ trivial)).trans hs'

/-- The id that `get_or_create_user` gives to the caller. -/
def callerId (s : Ledger) (env : Env) : ℕ := (s.getOrCreateUser env.caller).2

theorem callerId_of_known (h : s.userId env.caller ≠ 0) : s.callerId env = s.userId env.caller := by
  simp only [callerId, getOrCreateUser, if_neg h]
  split_ifs <;> rfl

/-- The operations of a call of the caller. -/
def permits (s : Ledger) (env : Env) (call : Call) : Book.Op → Prop :=
  Book.Op.Permitted (s.callerId env) s.nBlocksBeforeUnbond env call

theorem permits_credit (s : Ledger) (egld : ℕ) (env : Env) (call : Call) :
    (s.credit egld).permits env call = s.permits env call := by
  have hcaller : (s.credit egld).callerId env = s.callerId env := by
    simp only [callerId, getOrCreateUser, credit_userId, credit_userAddress, credit_numUsers]
    split_ifs <;> rfl
  rw [permits, hcaller]
  rfl

theorem permits_service (s : Ledger) (env : Env) {call : Call} (hcall : call = .stake ∨
    (∃ requested, call = .unStake requested) ∨ (Event.transaction env call).operates = true)
    (op : Book.Op) (hop : op.IsService) : s.permits env call op := by
  cases op with
  | activate | defer => exact hcall
  | _ => exact hop.elim

theorem stake_performed (hs : s.funds.WellFormed) (env : Env) :
    Spec (s.stake env) (fun s' => Performed (s.permits env .stake) s.funds s'.funds)
      (fun _ => True) := by
  refine Spec.bind (spec_require fun _ => trivial) fun _ _ => ?_
  refine Spec.bind (spec_require fun _ => trivial) fun _ _ => ?_
  refine Spec.bind (spec_require fun _ => trivial) fun _ _ => ?_
  have hservice : ∀ op : Book.Op, op.IsService → s.permits env .stake op :=
    s.permits_service env (.inl rfl)
  have hdeposit := hs.createWaiting env.blockNonce (s.callerId env) env.payment
  have hfunds : (s.getOrCreateUser env.caller).1.funds = s.funds := by
    simp only [getOrCreateUser]
    split_ifs <;> rfl
  simp only [processStake, hfunds]
  refine Spec.bind ((validateDelegationCapInvariant_spec _).mono (fun _ h => h)
    fun _ _ => trivial) fun _ _ => ?_
  refine (useWaitingToReplaceUnstaked_performed
    (s := { (s.getOrCreateUser env.caller).1 with
      funds := s.funds.createWaiting env.blockNonce (s.callerId env) env.payment })
    hdeposit.wellFormed hservice).imp fun s' hs' => ?_
  have hjoined : Performed (s.permits env .stake) s.funds _ :=
    hdeposit.performed ⟨rfl, rfl, rfl, rfl⟩
  exact hjoined.trans hs'

theorem unStakeActive_performed (hs : s.funds.WellFormed) (env : Env)
    (hservice : ∀ op, op.IsService → permitted op) (u remaining : ℕ)
    (hunstake : permitted (.unStake u env.blockNonce remaining)) :
    Spec (s.unStakeActive env u remaining)
      (fun s' => Performed permitted s.funds s'.funds) (fun _ => True) := by
  refine Spec.bind ((s.computeOneUserReward_spec ownerUserId).mono (fun _ h => h.funds)
    fun _ _ => trivial) fun s₁ hs₁ => ?_
  refine Spec.bind ((s₁.computeOneUserReward_spec u).mono (fun _ h => h.funds.trans hs₁)
    fun _ _ => trivial) fun s₂ hs₂ => ?_
  rw [hs₂]
  refine Spec.bind (hs.swapUserActiveToUnstaked env.blockNonce u remaining env.fuel) fun r hr => ?_
  refine Spec.bind (spec_require fun _ => trivial) fun _ _ => ?_
  refine Spec.bind (useWaitingToReplaceUnstaked_performed (s := { s₂ with funds := r.1 })
    hr.wellFormed hservice) fun s' hs' => ?_
  exact Spec.bind (spec_require fun _ => trivial) fun _ _ => (hr.performed hunstake).trans hs'

theorem unStake_performed (hs : s.funds.WellFormed) (env : Env) (amount : ℕ) :
    Spec (s.unStake env amount)
      (fun s' => Performed (s.permits env (.unStake amount)) s.funds s'.funds)
      (fun _ => True) := by
  refine Spec.bind (spec_require fun _ => trivial) fun _ _ => ?_
  refine Spec.bind (spec_require fun _ => trivial) fun _ _ => ?_
  refine Spec.bind (spec_require fun _ => trivial) fun _ hid => ?_
  have hcaller := callerId_of_known hid
  refine Spec.bind ((s.validateUnstakeAmount_spec _ amount).mono (fun _ h => h)
    fun _ _ => trivial) fun _ _ => ?_
  refine Spec.bind (((hs.swapUserWaitingToWithdrawOnly (s.userId env.caller) amount env.fuel).and
    (FundStore.Sound.swapUserWaitingToWithdrawOnly hs trivial (s.userId env.caller) amount
      env.fuel)).mono (fun _ h => h) fun _ _ => trivial) fun r hr => ?_
  obtain ⟨hr, moved, total, -, -, hrest, -⟩ := hr
  have hwithdraw : Performed (s.permits env (.unStake amount)) s.funds r.1 :=
    hr.performed ⟨rfl, hcaller.symm⟩
  simp only
  split_ifs with hzero
  · exact hwithdraw
  · refine (unStakeActive_performed (s := { s with funds := r.1 }) hr.wellFormed env
      (s.permits_service env (.inr (.inl ⟨amount, rfl⟩))) _ _ ?_).imp fun s' hs' => ?_
    · exact ⟨⟨amount, rfl, by omega⟩, hcaller.symm, rfl⟩
    · exact hwithdraw.trans hs'

theorem unBond_performed (hs : s.funds.WellFormed) (env : Env) :
    Spec (s.unBond env) (fun r => Performed (s.permits env .unBond) s.funds r.1.funds)
      (fun _ => True) := by
  refine Spec.bind (spec_require fun _ => trivial) fun _ _ => ?_
  refine Spec.bind (spec_require fun _ => trivial) fun _ hid => ?_
  have hcaller : s.callerId env = s.userId env.caller := callerId_of_known (by omega)
  refine Spec.bind (hs.swapEligibleDeferredToWithdraw env.blockNonce (s.userId env.caller)
    s.nBlocksBeforeUnbond (env.gasLow 0) env.fuel) fun r hr => ?_
  refine Spec.bind (hr.wellFormed.liquidateAllWithdrawOnly (s.userId env.caller) (env.gasLow 1)
    env.fuel) fun r' hr' => ?_
  have hall : Performed (s.permits env .unBond) s.funds r'.1 := by
    have hmature : Performed (s.permits env .unBond) s.funds r.1 :=
      hr.performed ⟨rfl, hcaller.symm, rfl, rfl⟩
    refine hmature.trans (ReflTransGen.mono ?_ _ _ hr')
    intro s₁ s₂ hp
    exact ⟨.pay (s.userId env.caller), ⟨rfl, hcaller.symm⟩, hp⟩
  simp only
  split_ifs with hpos
  · refine Spec.bind (P := fun s' => s'.funds = r'.1) ?_ fun s' hs' => ?_
    · unfold directEgld
      split_ifs
      · rfl
      · trivial
    · change Performed _ s.funds s'.funds
      rw [hs']
      exact hall
  · exact hall

/-! ### Operations on the cap and the fee -/

theorem computeAllRewards_funds (s : Ledger) (data : ComputeAllRewardsData) (gasLow : ℕ → Bool) :
    Spec (s.computeAllRewards data gasLow) (fun r => r.1.funds = s.funds) (fun _ => True) :=
  ((rewardsPhase_fee 0 0).computeAllRewards_ticks s data gasLow).mono (fun _ h => h.1)
    fun _ _ => trivial

theorem continueGlobalOperationStep_performed (hs : s.funds.WellFormed) (env : Env)
    (hservice : ∀ op, op.IsService → permitted op)
    (hforce : ∀ amount interrupt, permitted (.forceOut env.blockNonce amount interrupt))
    (orc : GlobalOpCheckpoint) :
    Spec (s.continueGlobalOperationStep env orc)
      (fun r => Performed permitted s.funds r.1.funds) (fun _ => True) := by
  have hnone : ∀ s' : Ledger, s'.funds = s.funds → Performed permitted s.funds s'.funds := by
    intro s' hs'
    rw [hs']
    exact ReflTransGen.refl
  cases orc with
  | none => exact hnone s rfl
  | changeServiceFee newServiceFee data =>
    refine Spec.bind (s.computeAllRewards_funds data (env.gasLow 0)) fun r hr => ?_
    obtain ⟨s₁, more⟩ := r
    cases more with
    | some data' => exact hnone s₁ hr
    | none => exact hnone _ hr
  | modifyTotalDelegationCap mdcapData =>
    obtain ⟨newCap, remW, remA, remU, step⟩ := mdcapData
    cases step with
    | computeAllRewards data =>
      refine Spec.bind (s.computeAllRewards_funds data (env.gasLow 0)) fun r hr => ?_
      obtain ⟨s₁, more⟩ := r
      cases more with
      | some data' => exact hnone s₁ hr
      | none => exact hnone s₁ hr
    | swapWaitingToActive =>
      refine Spec.bind (hs.swapWaitingToActive remW (env.gasLow 1)) fun r hr => ?_
      simp only
      split_ifs <;> exact hr.performed (hservice _ trivial)
    | swapUnstakedToDeferredPayment =>
      refine Spec.bind (hs.swapUnstakedToDeferredPayment remU (env.gasLow 2)) fun r hr => ?_
      simp only
      split_ifs <;> exact hr.performed (hservice _ trivial)
    | swapActiveToDeferredPayment =>
      refine Spec.bind (hs.swapActiveToDeferredPayment env.blockNonce remA (env.gasLow 3))
        fun r hr => ?_
      simp only
      split_ifs <;> exact hr.performed (hforce _ _)

theorem continueGlobalOperation_performed (hs : s.funds.WellFormed) (env : Env)
    (hservice : ∀ op, op.IsService → permitted op)
    (hforce : ∀ amount interrupt, permitted (.forceOut env.blockNonce amount interrupt))
    (orc : GlobalOpCheckpoint) :
    Spec (s.continueGlobalOperation env orc)
      (fun r => Performed permitted s.funds r.1.funds) (fun _ => True) := by
  refine Spec.bind (P := fun c => Performed permitted s.funds c.1.funds) ?_ ?_
  · refine Spec.imp (whileLoop_spec (J := fun _ c => Performed permitted s.funds c.1.funds)
      (E := fun _ => True) trivial ?_ 4 0 _ ?_) fun c ⟨_, hc, _⟩ => hc
    · intro k c hc _
      exact (continueGlobalOperationStep_performed (hc.wellFormed hs) env hservice hforce
        c.2.2).imp fun _ hstep => hc.trans hstep
    · exact ReflTransGen.refl
  · intro c hc
    obtain ⟨s₁, status, orc'⟩ := c
    exact hc

theorem modifyTotalDelegationCap_performed (hs : s.funds.WellFormed) (env : Env)
    (hservice : ∀ op, op.IsService → permitted op)
    (hforce : ∀ amount interrupt, permitted (.forceOut env.blockNonce amount interrupt))
    (newTotalCap : ℕ) :
    Spec (s.modifyTotalDelegationCap env newTotalCap)
      (fun r => Performed permitted s.funds r.1.funds) (fun _ => True) := by
  have hstart : ∀ (s' : Ledger) (previousTotalCap : ℕ), s'.funds = s.funds →
      Spec (s'.startModifyTotalDelegationCap env newTotalCap previousTotalCap)
        (fun r => Performed permitted s.funds r.1.funds) (fun _ => True) := by
    intro s' previousTotalCap hs'
    refine Spec.bind (Spec.of_forall_ok fun _ _ => trivial) fun plan (_ : True) => ?_
    cases plan with
    | none =>
      change Performed permitted s.funds s'.funds
      rw [hs']
      exact ReflTransGen.refl
    | some mdcapData =>
      rw [← hs']
      exact continueGlobalOperation_performed (by rw [hs']; exact hs) env hservice hforce _
  refine Spec.bind (spec_require fun _ => trivial) fun _ _ => ?_
  refine Spec.bind (spec_require fun _ => trivial) fun _ _ => ?_
  simp only
  split_ifs with hboot hmax
  · exact ReflTransGen.refl
  · exact hstart _ _ rfl
  · exact Spec.bind (spec_require fun _ => trivial) fun _ _ => hstart s _ rfl

theorem setServiceFee_performed (hs : s.funds.WellFormed) (env : Env)
    (hservice : ∀ op, op.IsService → permitted op)
    (hforce : ∀ amount interrupt, permitted (.forceOut env.blockNonce amount interrupt))
    (fee : ℕ) :
    Spec (s.setServiceFee env fee) (fun r => Performed permitted s.funds r.1.funds)
      (fun _ => True) := by
  refine Spec.bind (spec_require fun _ => trivial) fun _ _ => ?_
  refine Spec.bind (spec_require fun _ => trivial) fun _ _ => ?_
  split_ifs with hsame hboot
  · exact ReflTransGen.refl
  · exact ReflTransGen.refl
  · exact continueGlobalOperation_performed hs env hservice hforce _


end Ledger

/-- **A call performs the operations that it is permitted**, if it is no dust cleanup. -/
theorem Contract.endpoint_performed {c c' : Contract} {env : Env} {call : Call}
    {issued : Option AsyncCall} (hs : c.ledger.funds.WellFormed)
    (hdust : (Event.transaction env call).cleansDust = false)
    (h : c.endpoint env call = .ok (c', issued)) :
    Performed (c.ledger.permits env call) c.ledger.funds c'.ledger.funds := by
  cases hcall : call.administrative with
  | true =>
    have hkept := (endpoint_administered hcall h).kept
    rw [hkept.frame]
    exact ReflTransGen.refl
  | false =>
    have hservice : (Event.transaction env call).operates = true →
        ∀ op, op.IsService → c.ledger.permits env call op := fun hop =>
      c.ledger.permits_service env (.inr (.inr hop))
    have hforce : (Event.transaction env call).operates = true → ∀ amount interrupt,
        c.ledger.permits env call (.forceOut env.blockNonce amount interrupt) :=
      fun hop _ _ => ⟨hop, rfl⟩
    cases call with
    | continueGlobalOperation =>
      obtain ⟨-, ledger, status, hr, rfl⟩ := onLedgerFst_eq_ok h
      obtain ⟨_, -, hr⟩ := bind_eq_ok.mp hr
      exact (Ledger.continueGlobalOperation_performed hs env (hservice rfl) (hforce rfl) _).of_ok hr
    | modifyTotalDelegationCap newTotalCap =>
      obtain ⟨-, ledger, status, hr, rfl⟩ := onLedgerFst_eq_ok h
      have hdone :=
        Ledger.modifyTotalDelegationCap_performed hs env (hservice rfl) (hforce rfl) newTotalCap
      exact hdone.of_ok hr
    | setServiceFee fee =>
      obtain ⟨-, ledger, status, hr, rfl⟩ := onLedgerFst_eq_ok h
      exact (Ledger.setServiceFee_performed hs env (hservice rfl) (hforce rfl) _).of_ok hr
    | claimRewards =>
      obtain ⟨-, ledger, hr, rfl⟩ := onLedger_eq_ok h
      obtain ⟨amount, hclaimed⟩ := (c.ledger.claimRewards_spec env).of_ok hr
      obtain ⟨-, -, -, -⟩ := hclaimed
      exact ReflTransGen.refl
    | stake =>
      obtain ⟨-, ledger, hr, rfl⟩ := onLedger_eq_ok h
      exact (Ledger.stake_performed hs env).of_ok hr
    | unStake amount =>
      obtain ⟨-, ledger, hr, rfl⟩ := onLedger_eq_ok h
      exact (Ledger.unStake_performed hs env amount).of_ok hr
    | unBond =>
      obtain ⟨-, ledger, paid, hr, rfl⟩ := onLedgerFst_eq_ok h
      exact (Ledger.unBond_performed hs env).of_ok hr
    | dustCleanupWaitingList | dustCleanupActive => cases hdust
    | _ => cases hcall

/-! ### Steps -/

/-- What an event may do to the book. -/
def Ledger.permitsIn (s : Ledger) : Event → Book.Op → Prop
  | .transaction env call => s.permits env call
  | _ => fun _ => False

theorem Step.performed {w w' : World} {e : Event} (hs : w.contract.ledger.funds.WellFormed)
    (he : e.cleansDust = false) (h : Step w e w') :
    Performed (w.contract.ledger.permitsIn e) w.contract.ledger.funds
      w'.contract.ledger.funds := by
  have hnone : ∀ {s' : FundStore}, s' = w.contract.ledger.funds →
      Performed (w.contract.ledger.permitsIn e) w.contract.ledger.funds s' := by
    intro s' hs'
    rw [hs']
    exact ReflTransGen.refl
  cases h with
  | @transaction env call c issued h =>
    obtain ⟨_, -, h⟩ := bind_eq_ok.mp h
    have hcall := Contract.endpoint_performed (c := w.contract.credit env.payment) hs he h
    change Performed ((w.contract.ledger.credit env.payment).permits env call) _ _ at hcall
    rw [Ledger.permits_credit] at hcall
    exact hcall
  | answer _ h =>
    obtain ⟨egld, hegld⟩ := Contract.answer_ledger h
    exact hnone (by rw [hegld]; rfl)
  | @answerPanic _ _ result call =>
    obtain ⟨egld, hegld⟩ := w.contract.returned_ledger call result
    exact hnone (by rw [hegld]; rfl)
  | reward => exact hnone rfl
  | receive => exact hnone rfl

theorem Initial.funds_eq {w : World} (h : Initial w) : w.contract.ledger.funds = .empty := by
  cases h with
  | init h =>
    obtain ⟨_, -, h⟩ := bind_eq_ok.mp h
    obtain ⟨_, -, h⟩ := bind_eq_ok.mp h
    cases h
    rfl

theorem FundStore.queue_empty : FundStore.empty.queue = fun _ => [] := by
  funext t
  exact linked_empty.queue_eq trivial

theorem Run.wellFormed {w₀ w : World} {trace : List Transition} (h₀ : Initial w₀)
    (h : Run (fun _ e => e.cleansDust = false) w₀ trace w) :
    w.contract.ledger.funds.WellFormed := by
  induction h with
  | start =>
    rw [h₀.funds_eq]
    exact wellFormed_empty
  | step _ he hs ih => exact (hs.performed ih he).wellFormed ih

/-- The operations of a call are those of its caller, in its block. -/
theorem Book.Op.Permitted.by {u : ℕ} {nBlocks : UInt64} {env : Env} {call : Call} {op : Book.Op}
    (h : op.Permitted u nBlocks env call) : op.By u env.blockNonce := by
  cases op with
  | deposit => exact ⟨h.2.1, h.2.2.1⟩
  | unStake => exact ⟨h.2.1, h.2.2⟩
  | mature => exact ⟨h.2.1, h.2.2.1⟩
  | withdraw | pay | forceOut => exact h.2
  | activate | defer => trivial

theorem Book.Op.Permitted.withdraws {u : ℕ} {nBlocks : UInt64} {env : Env} {call : Call}
    {op : Book.Op} (h : op.Permitted u nBlocks env call) (hop : op.Withdraws) :
    ∃ amount, call = .unStake amount := by
  cases op with
  | withdraw user amount => exact ⟨amount, h.1⟩
  | _ => exact hop.elim

/-- What a transaction does to the two queues. -/
theorem Performed.changes {s s' : FundStore} {u : ℕ} {nBlocks : UInt64} {env : Env} {call : Call}
    (h : Performed (Book.Op.Permitted u nBlocks env call) s s') (hs : s.WellFormed) :
    ReflTransGen (Fifo.Change Entry.tickets u env.blockNonce.toNat
        (∃ amount, call = .unStake amount)) (s.queue .waiting) (s'.queue .waiting) ∧
      ReflTransGen (Fifo.Change Entry.tickets u env.blockNonce.toNat False)
        (s.queue .unStaked) (s'.queue .unStaked) := by
  induction h with
  | refl => exact ⟨.refl, .refl⟩
  | tail hchain hlast ih =>
    obtain ⟨op, hop, hp⟩ := hlast
    have hmid := Performed.wellFormed hchain hs
    exact ⟨ih.1.tail (hp.change_waiting hmid hop.by hop.withdraws),
      ih.2.tail (hp.change_unStaked hmid hop.by)⟩

/-- The nonce of a transaction. -/
def Event.stamp : Event → Option ℕ
  | .transaction env _ => some env.blockNonce.toNat
  | _ => none

/-- The block nonces of the transactions do not decrease. -/
def Trace.Chronological (trace : List Transition) : Prop :=
  (trace.filterMap fun t => t.event.stamp).Pairwise (· ≤ ·)

namespace Transition

/-- The transition is a transaction of the user `u`, which may be new. -/
def IsBy (t : Transition) (u : ℕ) : Prop :=
  ∃ env call, t.event = .transaction env call ∧ t.before.contract.ledger.callerId env = u

/-- The transition is an `unStake` of the user `u`. -/
def UnStakes (t : Transition) (u : ℕ) : Prop :=
  ∃ env amount, t.event = .transaction env (.unStake amount) ∧
    t.before.contract.ledger.callerId env = u

/-- The queue of a type before a transition. -/
def queueBefore (t : Transition) (type : FundType) : List Entry :=
  t.before.contract.ledger.funds.queue type

/-- The queue of a type after a transition. -/
def queueAfter (t : Transition) (type : FundType) : List Entry :=
  t.after.contract.ledger.funds.queue type

/-- First come, first served: the queue is in the order of the nonces; to users who do not act
nothing happens except that the front of their part is served; and what a user holds since some
nonce becomes less only if nothing older is left, or because the user takes back waiting stake. -/
structure InOrder (t : Transition) (type : FundType) : Prop where
  sorted : (t.queueAfter type).Pairwise fun e e' => e.fundDesc.created ≤ e'.fundDesc.created
  others : ∀ group : ℕ → Bool, (∀ u, t.IsBy u → group u = false) →
    ∃ x, Fifo.ticketsOf Entry.tickets group (t.queueAfter type) =
      Fifo.serve Entry.tickets x (Fifo.ticketsOf Entry.tickets group (t.queueBefore type))
  no_overtaking : ∀ v created, (type = .waiting → ¬ t.UnStakes v) →
    Fifo.held Entry.tickets v created (t.queueAfter type) <
      Fifo.held Entry.tickets v created (t.queueBefore type) →
    ∀ e ∈ t.queueAfter type, created ≤ e.fundDesc.created

end Transition

variable {w w' : World} {e : Event} {type : FundType}

/-- What a step does to a queue that users wait in. -/
theorem Step.changes (hs : w.contract.ledger.funds.WellFormed) (he : e.cleansDust = false)
    (h : Step w e w') (htype : type = .waiting ∨ type = .unStaked) :
    (e.stamp = none ∧
        w'.contract.ledger.funds.queue type = w.contract.ledger.funds.queue type) ∨
      ∃ env call leaves, e = .transaction env call ∧
        (leaves → type = .waiting ∧ ∃ amount, call = .unStake amount) ∧
        ReflTransGen (Fifo.Change Entry.tickets (w.contract.ledger.callerId env)
          env.blockNonce.toNat leaves) (w.contract.ledger.funds.queue type)
            (w'.contract.ledger.funds.queue type) := by
  have hperformed := h.performed hs he
  cases e with
  | transaction env call =>
    right
    obtain ⟨hwaiting, hunStaked⟩ := Performed.changes hperformed hs
    rcases htype with rfl | rfl
    · exact ⟨env, call, _, rfl, fun hleaves => ⟨rfl, hleaves⟩, hwaiting⟩
    · exact ⟨env, call, False, rfl, False.elim, hunStaked⟩
  | answer | reward | receive =>
    left
    obtain ⟨ops, hops, hqueue⟩ := hperformed.queue_eq
    have hnil : ops = [] := List.eq_nil_iff_forall_not_mem.mpr hops
    rw [hqueue, hnil]
    exact ⟨rfl, rfl⟩

/-- A step on a queue that is in order. -/
theorem Step.queue_inOrder (hs : w.contract.ledger.funds.WellFormed) (he : e.cleansDust = false)
    (h : Step w e w') (htype : type = .waiting ∨ type = .unStaked) {now : ℕ}
    (hnow : ∀ n, e.stamp = some n → n = now)
    (hq : Fifo.Queued Entry.tickets now (w.contract.ledger.funds.queue type)) :
    Fifo.Queued Entry.tickets now (w'.contract.ledger.funds.queue type) ∧
      (⟨w, e, w'⟩ : Transition).InOrder type := by
  rcases h.changes hs he htype with ⟨-, hqueue⟩ | ⟨env, call, leaves, rfl, hleaves, hchanges⟩
  · have hsame : (⟨w, e, w'⟩ : Transition).queueAfter type =
        (⟨w, e, w'⟩ : Transition).queueBefore type := hqueue
    refine ⟨by rw [hqueue]; exact hq, ?_, ?_, ?_⟩
    · rw [hsame]
      exact hq.sorted
    · intro group _
      exact ⟨0, by rw [hsame, Fifo.serve_zero]⟩
    · intro v created _ hlt
      rw [hsame] at hlt
      exact absurd hlt (lt_irrefl _)
  · obtain rfl := hnow _ rfl
    refine ⟨hq.changes hchanges, (hq.changes hchanges).sorted, ?_, ?_⟩
    · intro group hgroup
      exact Fifo.ticketsOf_changes hq hchanges (hgroup _ ⟨env, call, rfl, rfl⟩)
    · intro v created hv hlt
      refine Fifo.le_since_of_changes hq hchanges ?_ hlt
      by_contra hnot
      push Not at hnot
      obtain ⟨rfl, hleft⟩ := hnot
      obtain ⟨hwaiting, amount, rfl⟩ := hleaves hleft
      exact hv hwaiting ⟨env, amount, rfl, rfl⟩

/-- In a chronological run the queues that users wait in are in order at every later time. -/
theorem Run.queue_inOrder {w₀ : World} {trace : List Transition} (h₀ : Initial w₀)
    (h : Run (fun _ e => e.cleansDust = false) w₀ trace w) (hchron : Trace.Chronological trace)
    (htype : type = .waiting ∨ type = .unStaked) :
    (∀ now, (∀ n ∈ trace.filterMap fun t => t.event.stamp, n ≤ now) →
      Fifo.Queued Entry.tickets now (w.contract.ledger.funds.queue type)) ∧
    ∀ t ∈ trace, t.InOrder type := by
  induction h with
  | start =>
    refine ⟨fun now _ => ?_, by simp⟩
    rw [h₀.funds_eq, FundStore.queue_empty]
    exact ⟨by simp, by simp, by simp⟩
  | @step trace w w' e hrun he hs ih =>
    rw [Trace.Chronological, List.filterMap_append, List.pairwise_append] at hchron
    obtain ⟨hbefore, -, hlater⟩ := hchron
    obtain ⟨hqueued, hall⟩ := ih hbefore
    -- the step happens at a time that no earlier transaction exceeds
    obtain ⟨n, hn, hstamp⟩ : ∃ n, (∀ m ∈ trace.filterMap fun t => t.event.stamp, m ≤ n) ∧
        ∀ m, e.stamp = some m → m = n := by
      cases hstamp : e.stamp with
      | none => exact ⟨(trace.filterMap fun t => t.event.stamp).sum,
          fun m hm => List.le_sum_of_mem hm, by simp⟩
      | some n => exact ⟨n, fun m hm => hlater m hm n (by simp [hstamp]), by simp⟩
    have hwf := hrun.wellFormed h₀
    obtain ⟨hqueued', hinOrder⟩ := hs.queue_inOrder hwf he htype hstamp (hqueued n hn)
    refine ⟨fun now hnow => ?_, ?_⟩
    · cases hnone : e.stamp with
      | none =>
        refine (hs.queue_inOrder hwf he htype (by simp [hnone]) (hqueued now ?_)).1
        intro m hm
        exact hnow m (by simp [List.filterMap_append, hm])
      | some m =>
        obtain rfl := hstamp m hnone
        exact hqueued'.mono (hnow m (by simp [hnone]))
    · intro t ht
      rcases List.mem_append.mp ht with hmem | hmem
      · exact hall t hmem
      · rw [List.mem_singleton.mp hmem]
        exact hinOrder

/-- **First come, first served.** In every run without dust cleanups in which the block nonces of
the transactions do not decrease, waiting stake is activated and unstaked stake is deferred in the
order in which it came. -/
theorem fifo_of_run {w₀ w : World} {trace : List Transition} (h₀ : Initial w₀)
    (h : Run (fun _ e => e.cleansDust = false) w₀ trace w) (hchron : Trace.Chronological trace) :
    ∀ t ∈ trace, t.InOrder .waiting ∧ t.InOrder .unStaked := by
  intro t ht
  constructor
  · exact (h.queue_inOrder h₀ hchron (.inl rfl)).2 t ht
  · exact (h.queue_inOrder h₀ hchron (.inr rfl)).2 t ht

/-- Three delegators stake 10, 4 and 4 under a cap of 10. When the first one unstakes 5, the third
one loses 1 of what waits since nonce 3, and nothing older is left. -/
theorem fifo_of_run_unStake :
    ∃ t : Transition, Fifo.held Entry.tickets 4 3 (t.queueBefore .waiting) = 4 ∧
      Fifo.held Entry.tickets 4 3 (t.queueAfter .waiting) = 3 ∧
      ∀ e ∈ t.queueAfter .waiting, 3 ≤ e.fundDesc.created := by
  let events : List Event :=
    [.transaction { Env.plain 7 1 9 with payment := 10 } .stake,
      .transaction { Env.plain 8 2 9 with payment := 4 } .stake,
      .transaction { Env.plain 9 3 9 with payment := 4 } .stake]
  let last : Event := .transaction (.plain 7 4 9) (.unStake 5)
  have hrun : ((World.deploy 1 0 2 1000 0 9 1 10).bind fun w₀ => (w₀.record events).bind fun r =>
      (r.2.after last).map fun w' => (r.1.map fun t => t.event.cleansDust,
        r.1.filterMap fun t => t.event.stamp, r.2.contract.ledger.callerId (.plain 7 4 9),
        Fifo.held Entry.tickets 4 3 (r.2.contract.ledger.funds.queue .waiting),
        Fifo.held Entry.tickets 4 3 (w'.contract.ledger.funds.queue .waiting))) =
      some ([false, false, false], [1, 2, 3], 2, 4, 3) := by
    decide +kernel
  obtain ⟨w₀, hw₀, hrun⟩ := Option.bind_eq_some_iff.mp hrun
  obtain ⟨⟨trace, w⟩, hrecord, hrun⟩ := Option.bind_eq_some_iff.mp hrun
  obtain ⟨w', hafter, hobs⟩ := Option.map_eq_some_iff.mp hrun
  simp only [Prod.mk.injEq] at hobs
  obtain ⟨hdust, hstamps, hcaller, hbefore, hheld⟩ := hobs
  have hinit := World.initial_deploy hw₀
  have hhist : Run (fun _ e => e.cleansDust = false) w₀ (trace ++ [⟨w, last, w'⟩]) w' := by
    refine (World.run_record hrecord fun t ht => ?_).step rfl (World.step_after hafter)
    have hmem := List.mem_map_of_mem (f := fun t : Transition => t.event.cleansDust) ht
    rw [hdust] at hmem
    simpa using hmem
  have hchron : Trace.Chronological (trace ++ [⟨w, last, w'⟩]) := by
    rw [Trace.Chronological, List.filterMap_append, hstamps]
    change [1, 2, 3, 4].Pairwise (· ≤ ·)
    decide
  have hnot : ¬ Transition.UnStakes ⟨w, last, w'⟩ 4 := by
    rintro ⟨env, amount, hevent, hid⟩
    obtain ⟨rfl, -⟩ := Event.transaction.inj hevent
    rw [hcaller] at hid
    exact absurd hid (by decide)
  have hfifo := (fifo_of_run hinit hhist hchron ⟨w, last, w'⟩ (by simp)).1
  have hlt : Fifo.held Entry.tickets 4 3 (w'.contract.ledger.funds.queue .waiting) <
      Fifo.held Entry.tickets 4 3 (w.contract.ledger.funds.queue .waiting) := by omega
  exact ⟨⟨w, last, w'⟩, hbefore, hheld, hfifo.no_overtaking 4 3 (fun _ => hnot) hlt⟩

end Delegation
