import Delegation.Fund.Resume
import Delegation.Latest.ResetCheckpoint
import Delegation.Latest.Settle

/-!
# Global operations as a machine

An operation is a machine on the ledger: `tick` brings the rewards of one user up to date, or swaps
one fund, or goes on to the next phase, as the checkpoint in the ledger says. It is deterministic
and keeps everything it needs in the ledger. Each call that starts or continues an operation is a
chain of ticks (`continueGlobalOperation_ticks`): the gas decides how many, and nothing else.

What one tick preserves therefore holds between the transactions of an operation, and the outcome
does not depend on how the ticks are distributed over transactions.
-/

namespace Delegation

open Outcome Loop StateTransition FundStore

/-- The state of the computation of all rewards, while that goes on. -/
def GlobalOpCheckpoint.computing : GlobalOpCheckpoint → Option ComputeAllRewardsData
  | .modifyTotalDelegationCap { step := .computeAllRewards data, .. } => some data
  | .changeServiceFee _ data => some data
  | _ => Option.none

namespace Ledger

variable {s s' : Ledger} {nonce : UInt64} {env : Env}

/-- The ledger with another checkpoint. -/
@[simps]
def withOp (s : Ledger) (op : GlobalOpCheckpoint) : Ledger := { s with globalOpCheckpoint := op }

@[simp]
theorem withOp_withOp (s : Ledger) (op op' : GlobalOpCheckpoint) :
    (s.withOp op).withOp op' = s.withOp op' := rfl

/-! ### The machine -/

/-- A tick of the computation of all rewards. -/
def tickRewards (s : Ledger) (data : ComputeAllRewardsData)
    (goOn : Ledger → ComputeAllRewardsData → Ledger) (finish : Ledger → Ledger) : Option Ledger :=
  if data.rewardsCheckpoint ≠ s.cumulatedRewards then some (goOn s (.new s.cumulatedRewards))
  else if data.lastId < s.numUsers then
    (computeNextReward (s, data)).toOption.map fun c => goOn c.1 c.2
  else (s.giveRemainderToOwner data.sumUnclaimed).toOption.map finish

/-- A tick of a swap. -/
def tickSwap (s : Ledger) (src : FundType) (direction : SwapDirection)
    (g : FundDescription → Option FundDescription) (remaining : ℕ)
    (goOn : Ledger → ℕ → Ledger) (finish : Ledger) : Option Ledger :=
  match swapOne src direction g (s.funds, remaining) with
  | some (funds, rest) => some (goOn { s with funds := funds } rest)
  | none => if remaining = 0 then some finish else none

/-- A tick of a change of the delegation cap. -/
def tickModifyTotalDelegationCap (s : Ledger) (nonce : UInt64)
    (mdcapData : ModifyTotalDelegationCapData) : Option Ledger :=
  match mdcapData.step with
  | .computeAllRewards carData =>
      s.tickRewards carData
        (fun s carData => s.withOp
          (.modifyTotalDelegationCap { mdcapData with step := .computeAllRewards carData }))
        (fun s => s.withOp
          (.modifyTotalDelegationCap { mdcapData with step := .swapWaitingToActive }))
  | .swapWaitingToActive =>
      s.tickSwap .waiting .forwards (fun _ => some .active) mdcapData.remainingSwapWaitingToActive
        (fun s rest => s.withOp
          (.modifyTotalDelegationCap { mdcapData with remainingSwapWaitingToActive := rest }))
        (s.withOp
          (.modifyTotalDelegationCap { mdcapData with step := .swapUnstakedToDeferredPayment }))
  | .swapUnstakedToDeferredPayment =>
      s.tickSwap .unStaked .forwards unstakedToDeferred mdcapData.remainingSwapUnstakedToDefP
        (fun s rest => s.withOp
          (.modifyTotalDelegationCap { mdcapData with remainingSwapUnstakedToDefP := rest }))
        (s.withOp
          (.modifyTotalDelegationCap { mdcapData with step := .swapActiveToDeferredPayment }))
  | .swapActiveToDeferredPayment =>
      s.tickSwap .active .backwards (fun _ => some (.deferredPayment nonce))
        mdcapData.remainingSwapActiveToDefP
        (fun s rest => s.withOp
          (.modifyTotalDelegationCap { mdcapData with remainingSwapActiveToDefP := rest }))
        ({ s with totalDelegationCap := mdcapData.newDelegationCap }.withOp .none)

/-- One step of the machine; `none` when there is nothing to do, or when it is stuck. -/
def tick (nonce : UInt64) (s : Ledger) : Option Ledger :=
  match s.globalOpCheckpoint with
  | .none => none
  | .modifyTotalDelegationCap mdcapData => s.tickModifyTotalDelegationCap nonce mdcapData
  | .changeServiceFee newServiceFee computeRewardsData =>
      s.tickRewards computeRewardsData
        (fun s data => s.withOp (.changeServiceFee newServiceFee data))
        (fun s => { s with serviceFee := newServiceFee }.withOp .none)

/-! ### The loops are chains of ticks -/

/-- The checkpoint is not read by the computation of rewards. -/
theorem computeNextReward_withOp (op : GlobalOpCheckpoint) (data : ComputeAllRewardsData) :
    computeNextReward (s.withOp op, data) =
      (computeNextReward (s, data)).map fun c => (c.1.withOp op, c.2) := by
  change (s.loadUpdatedUserRewards (data.lastId + 1) >>= _) =
    Except.map _ (s.loadUpdatedUserRewards (data.lastId + 1) >>= _)
  cases s.loadUpdatedUserRewards (data.lastId + 1) <;> rfl

theorem giveRemainderToOwner_withOp (op : GlobalOpCheckpoint) (sumUnclaimed : ℕ) :
    (s.withOp op).giveRemainderToOwner sumUnclaimed =
      (s.giveRemainderToOwner sumUnclaimed).map fun s => s.withOp op := by
  change (bigSub s.cumulatedRewards sumUnclaimed >>= _) =
    Except.map _ (bigSub s.cumulatedRewards sumUnclaimed >>= _)
  cases bigSub s.cumulatedRewards sumUnclaimed with
  | error e => rfl
  | ok r =>
    simp only [ok_bind]
    change (bigSub r s.sentRewards >>= _) = Except.map _ (bigSub r s.sentRewards >>= _)
    cases bigSub r s.sentRewards <;> rfl

/-- The machine got stuck in the computation of rewards of an operation that started from `s`. -/
def GetsStuck (nonce : UInt64) (s : Ledger) : Prop :=
  ∃ t, Reaches (tick nonce) s t ∧ t.globalOpCheckpoint.computing ≠ none ∧ tick nonce t = none

theorem GetsStuck.of_reaches (h : GetsStuck nonce s') (hs : Reaches (tick nonce) s s') :
    GetsStuck nonce s := by
  obtain ⟨t, ht, hop, hnone⟩ := h
  exact ⟨t, hs.trans ht, hop, hnone⟩

section Rewards

variable {mk : ComputeAllRewardsData → GlobalOpCheckpoint} {finish : Ledger → Ledger}
  {data : ComputeAllRewardsData}

/-- In the phase `mk` the machine computes rewards and ends with `finish`. -/
structure RewardsPhase (nonce : UInt64) (mk : ComputeAllRewardsData → GlobalOpCheckpoint)
    (finish : Ledger → Ledger) : Prop where
  tick_eq : ∀ (s : Ledger) data, tick nonce (s.withOp (mk data)) =
    (s.withOp (mk data)).tickRewards data (fun s data => s.withOp (mk data)) finish
  finish_withOp : ∀ (s : Ledger) op, finish (s.withOp op) = finish s
  computing_ne : ∀ data, (mk data).computing ≠ none

theorem RewardsPhase.restart (h : RewardsPhase nonce mk finish) (s : Ledger)
    (data : ComputeAllRewardsData) : Reaches (tick nonce) (s.withOp (mk data))
      (s.withOp (mk (s.restartIfMoreRewards data))) := by
  simp only [restartIfMoreRewards]
  split_ifs with heq
  · exact .refl
  · refine .single ?_
    simp only [h.tick_eq, tickRewards, withOp_cumulatedRewards, ne_eq, heq, not_false_eq_true,
      if_true]
    rfl

theorem RewardsPhase.next (h : RewardsPhase nonce mk finish)
    (hcp : data.rewardsCheckpoint = s.cumulatedRewards) (hlt : data.lastId < s.numUsers) :
    tick nonce (s.withOp (mk data)) =
      (computeNextReward (s, data)).toOption.map fun c => c.1.withOp (mk c.2) := by
  simp only [h.tick_eq, tickRewards, withOp_cumulatedRewards, withOp_numUsers, ne_eq, hcp,
    not_true_eq_false, if_false, if_pos hlt, computeNextReward_withOp]
  cases computeNextReward (s, data) <;> rfl

theorem RewardsPhase.last (h : RewardsPhase nonce mk finish)
    (hcp : data.rewardsCheckpoint = s.cumulatedRewards) (hle : s.numUsers ≤ data.lastId) :
    tick nonce (s.withOp (mk data)) =
      (s.giveRemainderToOwner data.sumUnclaimed).toOption.map finish := by
  simp only [h.tick_eq, tickRewards, withOp_cumulatedRewards, withOp_numUsers, ne_eq, hcp,
    not_true_eq_false, if_false, if_neg (not_lt.mpr hle), giveRemainderToOwner_withOp]
  cases s.giveRemainderToOwner data.sumUnclaimed with
  | error e => rfl
  | ok s₁ => exact congrArg some (h.finish_withOp s₁ _)

/-- What holds between the iterations of `compute_all_rewards` from `s` and `data`. -/
structure Computing (nonce : UInt64) (mk : ComputeAllRewardsData → GlobalOpCheckpoint) (s : Ledger)
    (data : ComputeAllRewardsData) (k : ℕ) (c : Ledger × ComputeAllRewardsData) : Prop where
  funds : c.1.funds = s.funds
  cumulatedRewards : c.1.cumulatedRewards = s.cumulatedRewards
  numUsers : c.1.numUsers = s.numUsers
  checkpoint : c.2.rewardsCheckpoint = s.cumulatedRewards
  reaches : Reaches (tick nonce) (s.withOp (mk data)) (c.1.withOp (mk c.2))
  progress : k ≠ 0 → Reaches₁ (tick nonce) (s.withOp (mk data)) (c.1.withOp (mk c.2))

theorem RewardsPhase.computeNextReward_ticks (h : RewardsPhase nonce mk finish) {k : ℕ}
    {c : Ledger × ComputeAllRewardsData} (hc : Computing nonce mk s data k c)
    (hlt : c.2.lastId < c.1.numUsers) :
    Spec (computeNextReward c)
      (fun c' => Computing nonce mk s data (k + 1) c' ∧ c'.2.lastId = c.2.lastId + 1)
      fun e => e.Arith ∧ GetsStuck nonce (s.withOp (mk data)) := by
  have htick := h.next (hc.checkpoint.trans hc.cumulatedRewards.symm) hlt
  refine Spec.intro (fun c' hok => ?_) fun e he => ⟨?_, _, hc.reaches, h.computing_ne _, ?_⟩
  · rw [show (c.1, c.2) = c from rfl, hok] at htick
    obtain ⟨userData, -, hok⟩ := bind_eq_ok.mp hok
    cases hok
    exact ⟨⟨hc.funds, hc.cumulatedRewards, hc.numUsers, hc.checkpoint, hc.reaches.tail htick,
      fun _ => .tail' hc.reaches htick⟩, rfl⟩
  · cases hload : c.1.loadUpdatedUserRewards (c.2.lastId + 1) with
    | error e' =>
      simp only [computeNextReward, hload, error_bind, Except.error.injEq] at he
      exact he ▸ loadUpdatedUserRewards_error hload
    | ok userData =>
      simp only [computeNextReward, hload] at he
      cases he
  · rw [htick, show (c.1, c.2) = c from rfl, he]
    rfl

/-- **`compute_all_rewards` is a chain of ticks.** -/
theorem RewardsPhase.computeAllRewards_ticks (h : RewardsPhase nonce mk finish) (s : Ledger)
    (data : ComputeAllRewardsData) (gasLow : ℕ → Bool) :
    Spec (s.computeAllRewards data gasLow)
      (fun r => r.1.funds = s.funds ∧
        match r.2 with
        | some data' => Reaches (tick nonce) (s.withOp (mk data)) (r.1.withOp (mk data')) ∧
            (gasLow 0 = false →
              Reaches₁ (tick nonce) (s.withOp (mk data)) (r.1.withOp (mk data'))) ∧
            ∃ k, gasLow k = true
        | none => Reaches₁ (tick nonce) (s.withOp (mk data)) (finish r.1))
      fun e => e.Arith ∧ GetsStuck nonce (s.withOp (mk data)) := by
  have hrestart := h.restart s data
  have hcp : (s.restartIfMoreRewards data).rewardsCheckpoint = s.cumulatedRewards := by
    simp only [restartIfMoreRewards]
    split_ifs with heq
    · exact heq
    · rfl
  set start := s.restartIfMoreRewards data
  have hloop : Spec (whileLoop (fun k c => decide (c.2.lastId < c.1.numUsers) && !gasLow k)
      computeNextReward .outOfGas (s.numUsers - start.lastId) 0 (s, start))
      (fun c => ∃ k, Computing nonce mk s data k c ∧
        (decide (c.2.lastId < c.1.numUsers) && !gasLow k) = false)
      fun e => e.Arith ∧ GetsStuck nonce (s.withOp (mk data)) := by
    refine whileLoop_spec_of_measure (J := Computing nonce mk s data)
      (fun c => s.numUsers - c.2.lastId) (fun k c hc hguard => ?_) _ 0 (s, start)
      ⟨rfl, rfl, rfl, hcp, hrestart, fun h0 => absurd rfl h0⟩ le_rfl
    rw [Bool.and_eq_true, decide_eq_true_eq] at hguard
    have hlt := hguard.1
    have hn := hc.numUsers
    refine ⟨by omega, (h.computeNextReward_ticks hc hlt).imp fun c' ⟨hc', hlast⟩ => ⟨hc', ?_⟩⟩
    simp only [hlast]
    omega
  refine Spec.bind hloop fun c hc => ?_
  obtain ⟨k, hc, hguard⟩ := hc
  obtain ⟨s₁, data'⟩ := c
  simp only at hguard ⊢
  split_ifs with hlt
  · have hgas : gasLow k = true := by simpa [hlt] using hguard
    refine ⟨hc.funds, hc.reaches, fun hgas₀ => hc.progress ?_, k, hgas⟩
    rintro rfl
    rw [hgas] at hgas₀
    cases hgas₀
  · have htick := h.last (hc.checkpoint.trans hc.cumulatedRewards.symm) (not_lt.mp hlt)
    simp only at htick
    refine Spec.bind (P := fun s₂ => s₂.funds = s.funds ∧
      Reaches₁ (tick nonce) (s.withOp (mk data)) (finish s₂)) ?_ fun _ hs => ⟨hs.1, hs.2⟩
    refine Spec.intro (fun s₂ hok => ⟨?_, ?_⟩) fun e he =>
      ⟨?_, _, hc.reaches, h.computing_ne _, ?_⟩
    · obtain ⟨r, -, hok⟩ := bind_eq_ok.mp hok
      obtain ⟨r', -, hok⟩ := bind_eq_ok.mp hok
      cases hok
      exact hc.funds
    · rw [hok] at htick
      exact .tail' hc.reaches htick
    · have hspec : Spec (s₁.giveRemainderToOwner data'.sumUnclaimed) (fun _ => True) Panic.Arith :=
        Spec.bind (spec_bigSub_arith _ _) fun _ _ =>
          Spec.bind (spec_bigSub_arith _ _) fun _ _ => trivial
      exact hspec.of_error he
    · rw [htick, he]
      rfl

end Rewards

/-! ### The swaps -/

/-- What a call does that starts at `s₀` and ends at `s₁`: some ticks; at least one, if the gas is
not low at once and one is possible; all that are possible, if the gas is never low. -/
structure Called (env : Env) (s₀ s₁ : Ledger) : Prop where
  reaches : Reaches (tick env.blockNonce) s₀ s₁
  progress : (∀ i, env.gasLow i 0 = false) → tick env.blockNonce s₀ ≠ none →
    Reaches₁ (tick env.blockNonce) s₀ s₁
  halts : (∀ i k, env.gasLow i k = false) → tick env.blockNonce s₁ = none

/-- A phase that is over is followed by the rest of the call. -/
theorem Called.of_reaches {s₀ s₁ s₂ : Ledger} (h : Reaches₁ (tick env.blockNonce) s₀ s₁)
    (h' : Called env s₁ s₂) : Called env s₀ s₂ :=
  ⟨h.to_reflTransGen.trans h'.reaches, fun _ _ => h.trans_left h'.reaches, h'.halts⟩

section Swap

variable {src dst : FundType} {direction : SwapDirection}
  {g : FundDescription → Option FundDescription} {mk : ℕ → GlobalOpCheckpoint}
  {finish : ℕ → Ledger → Ledger} {funds : FundStore} {remaining rest : ℕ}

/-- In the phase `mk` the machine swaps from `src` to `dst` and ends with `finish`. -/
structure SwapPhase (nonce : UInt64) (src dst : FundType) (direction : SwapDirection)
    (g : FundDescription → Option FundDescription) (mk : ℕ → GlobalOpCheckpoint)
    (finish : ℕ → Ledger → Ledger) : Prop where
  tick_eq : ∀ (s : Ledger) remaining, tick nonce (s.withOp (mk remaining)) =
    (s.withOp (mk remaining)).tickSwap src direction g remaining (fun s rest => s.withOp (mk rest))
      (finish remaining s)
  accepts : ∀ d, d.fundType = src → ∃ d', g d = some d' ∧ d'.fundType = dst
  relied : Relied src
  ne : dst ≠ src

theorem SwapPhase.tick_of_swapOne (h : SwapPhase nonce src dst direction g mk finish)
    (hone : swapOne src direction g (s.funds, remaining) = some (funds, rest)) :
    tick nonce (s.withOp (mk remaining)) = some ({ s with funds := funds }.withOp (mk rest)) := by
  simp only [h.tick_eq, tickSwap, withOp_funds, hone]
  rfl

theorem SwapPhase.tick_zero (h : SwapPhase nonce src dst direction g mk finish) (s : Ledger) :
    tick nonce (s.withOp (mk 0)) = some (finish 0 s) := by
  simp [h.tick_eq, tickSwap, swapOne]

theorem SwapPhase.tick_eq_none (h : SwapPhase nonce src dst direction g mk finish)
    (hs : s.FundsSound) (hrem : remaining ≠ 0) :
    tick nonce (s.withOp (mk remaining)) = none ↔ s.funds.typeTotal src = 0 := by
  have hiff : swapOne src direction g (s.funds, remaining) = none ↔
      remaining = 0 ∨ s.funds.typeTotal src = 0 :=
    FundStore.Sound.swapOne_eq_none_iff hs h.relied h.accepts h.ne
  rw [or_iff_right hrem] at hiff
  rw [← hiff]
  cases hone : swapOne src direction g (s.funds, remaining) with
  | none => simp [h.tick_eq, tickSwap, withOp_funds, hone, hrem]
  | some c => simp [h.tick_of_swapOne hone]

theorem SwapPhase.reaches (h : SwapPhase nonce src dst direction g mk finish) (s : Ledger)
    {c : FundStore × ℕ} (hreach : Reaches (swapOne src direction g) (s.funds, remaining) c) :
    Reaches (tick nonce) (s.withOp (mk remaining)) ({ s with funds := c.1 }.withOp (mk c.2)) := by
  induction hreach with
  | refl => exact .refl
  | @tail c c' _ hone ih => exact ih.tail (h.tick_of_swapOne (s := { s with funds := c.1 }) hone)

/-- **A swap phase is a chain of ticks**: the phase is over, or the call is. -/
theorem SwapPhase.swap_ticks (h : SwapPhase env.blockNonce src dst direction g mk finish)
    (hs : s.FundsSound) (i : ℕ) {moved : ℕ → ℕ} {amount : ℕ}
    (hsw : SwapSpec Relied s.funds src dst g (fun _ => True) remaining (env.gasLow i) funds rest
      moved amount)
    (hreach : Reaches (swapOne src direction g) (s.funds, remaining) (funds, rest)) :
    if 0 < rest then
      Called env (s.withOp (mk remaining)) ({ s with funds := funds }.withOp (mk rest))
    else Reaches₁ (tick env.blockNonce) (s.withOp (mk remaining))
      (finish 0 { s with funds := funds }) := by
  have hticks := h.reaches s hreach
  have hadd := hsw.rest_add
  split_ifs with hrest
  · refine ⟨hticks, fun hgas hnone => ?_, fun hgas => ?_⟩
    · rw [ne_eq, h.tick_eq_none hs (by omega)] at hnone
      have hpos := hsw.progress (hgas i) (by omega) (Nat.pos_of_ne_zero hnone)
      -- something was swapped, so there was a first swap
      rcases Relation.ReflTransGen.cases_head hreach with heq | ⟨c, hone, hreach'⟩
      · have := congrArg Prod.snd heq
        simp only at this
        omega
      · exact .head' (h.tick_of_swapOne hone) (h.reaches { s with funds := c.1 } hreach')
    · rw [h.tick_eq_none (s := { s with funds := funds }) hsw.swapped.sound (by omega)]
      exact (hsw.exhausted (hgas i)).resolve_left (by omega)
  · obtain rfl : rest = 0 := by omega
    exact .tail' hticks (h.tick_zero _)

end Swap

/-! ### A call -/

/-- The number of phases that are left. -/
def phasesLeft : GlobalOpCheckpoint → ℕ
  | .none => 0
  | .modifyTotalDelegationCap mdcapData =>
      match mdcapData.step with
      | .computeAllRewards _ => 4
      | .swapWaitingToActive => 3
      | .swapUnstakedToDeferredPayment => 2
      | .swapActiveToDeferredPayment => 1
  | .changeServiceFee _ _ => 1

/-- How a call that works on an operation panics: it visits too many funds in one swap, or the
machine is stuck in its arithmetic. -/
def CallFails (env : Env) (s₀ : Ledger) (e : Panic) : Prop :=
  (∃ i, IsCapacity (env.gasLow i) e) ∨ e.Arith ∧ GetsStuck env.blockNonce s₀

/-- The outcome of `continue_global_operation_step` from `s` and `orc`. -/
structure Stepped (env : Env) (s : Ledger) (orc : GlobalOpCheckpoint)
    (r : Ledger × OperationCompletionStatus × GlobalOpCheckpoint) : Prop where
  sound : r.1.FundsSound
  completed : r.2.1 = .completed →
    Reaches₁ (tick env.blockNonce) (s.withOp orc) (r.1.withOp r.2.2) ∧
      phasesLeft r.2.2 < phasesLeft orc
  interrupted : r.2.1 = .interruptedBeforeOutOfGas →
    Called env (s.withOp orc) (r.1.withOp r.2.2)

theorem rewardsPhase_modify (nonce : UInt64) (mdcapData : ModifyTotalDelegationCapData) :
    RewardsPhase nonce
      (fun data => .modifyTotalDelegationCap { mdcapData with step := .computeAllRewards data })
      (fun s => s.withOp
        (.modifyTotalDelegationCap { mdcapData with step := .swapWaitingToActive })) where
  tick_eq _ _ := rfl
  finish_withOp _ _ := rfl
  computing_ne _ := nofun

theorem rewardsPhase_fee (nonce : UInt64) (newServiceFee : ℕ) :
    RewardsPhase nonce (fun data => .changeServiceFee newServiceFee data)
      (fun s => { s with serviceFee := newServiceFee }.withOp .none) where
  tick_eq _ _ := rfl
  finish_withOp _ _ := rfl
  computing_ne _ := nofun

theorem swapPhase_waitingToActive (nonce : UInt64) (mdcapData : ModifyTotalDelegationCapData) :
    SwapPhase nonce .waiting .active .forwards (fun _ => some .active)
      (fun rest => .modifyTotalDelegationCap
        { mdcapData with remainingSwapWaitingToActive := rest, step := .swapWaitingToActive })
      (fun rest s => s.withOp (.modifyTotalDelegationCap
        { mdcapData with
          remainingSwapWaitingToActive := rest
          step := .swapUnstakedToDeferredPayment })) where
  tick_eq _ _ := rfl
  accepts _ _ := ⟨_, rfl, rfl⟩
  relied := by decide
  ne := by decide

theorem swapPhase_unstakedToDeferred (nonce : UInt64) (mdcapData : ModifyTotalDelegationCapData) :
    SwapPhase nonce .unStaked .deferredPayment .forwards unstakedToDeferred
      (fun rest => .modifyTotalDelegationCap
        { mdcapData with
          remainingSwapUnstakedToDefP := rest
          step := .swapUnstakedToDeferredPayment })
      (fun rest s => s.withOp (.modifyTotalDelegationCap
        { mdcapData with
          remainingSwapUnstakedToDefP := rest
          step := .swapActiveToDeferredPayment })) where
  tick_eq _ _ := rfl
  accepts := unstakedToDeferred_of_fundType
  relied := by decide
  ne := by decide

theorem swapPhase_activeToDeferred (nonce : UInt64) (mdcapData : ModifyTotalDelegationCapData) :
    SwapPhase nonce .active .deferredPayment .backwards
      (fun _ => some (.deferredPayment nonce))
      (fun rest => .modifyTotalDelegationCap
        { mdcapData with
          remainingSwapActiveToDefP := rest
          step := .swapActiveToDeferredPayment })
      (fun _ s => { s with totalDelegationCap := mdcapData.newDelegationCap }.withOp .none) where
  tick_eq _ _ := rfl
  accepts _ _ := ⟨_, rfl, rfl⟩
  relied := by decide
  ne := by decide

/-- The two ways in which `compute_all_rewards` leaves a phase. -/
theorem RewardsPhase.stepped {mk : ComputeAllRewardsData → GlobalOpCheckpoint}
    {finish : Ledger → Ledger} (h : RewardsPhase env.blockNonce mk finish) (hs : s.FundsSound)
    (data : ComputeAllRewardsData) :
    Spec (s.computeAllRewards data (env.gasLow 0))
      (fun r => r.1.FundsSound ∧
        match r.2 with
        | some data' => Called env (s.withOp (mk data)) (r.1.withOp (mk data'))
        | none => Reaches₁ (tick env.blockNonce) (s.withOp (mk data)) (finish r.1))
      (CallFails env (s.withOp (mk data))) := by
  refine (h.computeAllRewards_ticks s data (env.gasLow 0)).mono (fun r hr => ?_) fun _ => .inr
  obtain ⟨s₁, more⟩ := r
  obtain ⟨hfunds, hr⟩ := hr
  simp only at hfunds hr ⊢
  refine ⟨by unfold FundsSound; rw [hfunds]; exact hs, ?_⟩
  cases more with
  | none => exact hr
  | some data' =>
    obtain ⟨hreach, hprogress, k, hk⟩ := hr
    refine ⟨hreach, fun hgas _ => hprogress (hgas 0), fun hgas => ?_⟩
    rw [hgas] at hk
    cases hk

theorem continueGlobalOperationStep_ticks (hs : s.FundsSound) {orc : GlobalOpCheckpoint}
    (horc : orc ≠ .none) :
    Spec (s.continueGlobalOperationStep env orc) (Stepped env s orc)
      (CallFails env (s.withOp orc)) := by
  cases orc with
  | none => exact absurd rfl horc
  | changeServiceFee newServiceFee data =>
    refine Spec.bind ((rewardsPhase_fee env.blockNonce newServiceFee).stepped hs data)
      fun r ⟨hsound, hr⟩ => ?_
    obtain ⟨s₁, more⟩ := r
    cases more with
    | some data' => exact ⟨hsound, nofun, fun _ => hr⟩
    | none => exact ⟨hsound, fun _ => ⟨hr, by simp [phasesLeft]⟩, nofun⟩
  | modifyTotalDelegationCap mdcapData =>
    obtain ⟨newCap, remW, remA, remU, step⟩ := mdcapData
    cases step with
    | computeAllRewards data =>
      refine Spec.bind ((rewardsPhase_modify env.blockNonce
        ⟨newCap, remW, remA, remU, .computeAllRewards data⟩).stepped hs data)
        fun r ⟨hsound, hr⟩ => ?_
      obtain ⟨s₁, more⟩ := r
      cases more with
      | some data' => exact ⟨hsound, nofun, fun _ => hr⟩
      | none => exact ⟨hsound, fun _ => ⟨hr, by simp [phasesLeft]⟩, nofun⟩
    | swapWaitingToActive =>
      refine Spec.bind ((FundStore.Sound.swapWaitingToActive_reaches hs (by decide) remW
        (env.gasLow 1)).mono (fun _ h => h) fun _ he => .inl ⟨1, he⟩) fun r hr => ?_
      obtain ⟨funds, rest, users⟩ := r
      obtain ⟨⟨moved, amount, hsw⟩, hreach⟩ := hr
      have hticks := (swapPhase_waitingToActive env.blockNonce
        ⟨newCap, remW, remA, remU, .swapWaitingToActive⟩).swap_ticks hs 1 hsw hreach
      simp only at hticks ⊢
      split_ifs at hticks ⊢ with hrest
      · exact ⟨hsw.swapped.sound, nofun, fun _ => hticks⟩
      · obtain rfl : rest = 0 := by omega
        exact ⟨hsw.swapped.sound, fun _ => ⟨hticks, by simp [phasesLeft]⟩, nofun⟩
    | swapUnstakedToDeferredPayment =>
      refine Spec.bind ((FundStore.Sound.swapUnstakedToDeferredPayment_reaches hs (by decide) remU
        (env.gasLow 2)).mono (fun _ h => h) fun _ he => .inl ⟨2, he⟩) fun r hr => ?_
      obtain ⟨funds, rest⟩ := r
      obtain ⟨⟨moved, amount, hsw⟩, hreach⟩ := hr
      have hticks := (swapPhase_unstakedToDeferred env.blockNonce
        ⟨newCap, remW, remA, remU, .swapUnstakedToDeferredPayment⟩).swap_ticks hs 2 hsw hreach
      simp only at hticks ⊢
      split_ifs at hticks ⊢ with hrest
      · exact ⟨hsw.swapped.sound, nofun, fun _ => hticks⟩
      · obtain rfl : rest = 0 := by omega
        exact ⟨hsw.swapped.sound, fun _ => ⟨hticks, by simp [phasesLeft]⟩, nofun⟩
    | swapActiveToDeferredPayment =>
      refine Spec.bind ((FundStore.Sound.swapActiveToDeferredPayment_reaches hs (by decide)
        env.blockNonce remA (env.gasLow 3)).mono (fun _ h => h) fun _ he => .inl ⟨3, he⟩)
        fun r hr => ?_
      obtain ⟨funds, rest⟩ := r
      obtain ⟨⟨moved, amount, hsw⟩, hreach⟩ := hr
      have hticks := (swapPhase_activeToDeferred env.blockNonce
        ⟨newCap, remW, remA, remU, .swapActiveToDeferredPayment⟩).swap_ticks hs 3 hsw hreach
      simp only at hticks ⊢
      split_ifs at hticks ⊢ with hrest
      · exact ⟨hsw.swapped.sound, nofun, fun _ => hticks⟩
      · exact ⟨hsw.swapped.sound, fun _ => ⟨hticks, by simp [phasesLeft]⟩, nofun⟩

theorem phasesLeft_le (orc : GlobalOpCheckpoint) : phasesLeft orc ≤ 4 := by
  cases orc with
  | none => simp [phasesLeft]
  | changeServiceFee => simp [phasesLeft]
  | modifyTotalDelegationCap mdcapData =>
    simp only [phasesLeft]
    split <;> simp

theorem phasesLeft_eq_zero {orc : GlobalOpCheckpoint} : phasesLeft orc = 0 ↔ orc = .none := by
  cases orc with
  | none => simp [phasesLeft]
  | changeServiceFee => simp [phasesLeft]
  | modifyTotalDelegationCap mdcapData =>
    simp only [phasesLeft]
    split <;> simp

/-- What holds between the steps of `continue_global_operation` from `s` and `orc`. -/
structure Continuing (env : Env) (s : Ledger) (orc : GlobalOpCheckpoint) (k : ℕ)
    (c : Ledger × OperationCompletionStatus × GlobalOpCheckpoint) : Prop where
  sound : c.1.FundsSound
  reaches : Reaches (tick env.blockNonce) (s.withOp orc) (c.1.withOp c.2.2)
  progress : k ≠ 0 → c.2.1 = .completed →
    Reaches₁ (tick env.blockNonce) (s.withOp orc) (c.1.withOp c.2.2)
  interrupted : c.2.1 = .interruptedBeforeOutOfGas →
    Called env (s.withOp orc) (c.1.withOp c.2.2)
  start : k = 0 → c = (s, .completed, orc)

theorem CallFails.of_reaches {s₀ s₁ : Ledger} {e : Panic} (h : CallFails env s₁ e)
    (hs : Reaches (tick env.blockNonce) s₀ s₁) : CallFails env s₀ e :=
  h.imp_right fun ⟨harith, hstuck⟩ => ⟨harith, hstuck.of_reaches hs⟩

/-- **A call that starts or continues an operation is a chain of ticks**, which the gas cuts off,
and which fails only when a swap visits too many funds or the machine is stuck. -/
theorem continueGlobalOperation_ticks (hs : s.FundsSound) (env : Env) (orc : GlobalOpCheckpoint) :
    Spec (s.continueGlobalOperation env orc)
      (fun r => Called env (s.withOp orc) r.1 ∧ r.1.FundsSound) (CallFails env (s.withOp orc)) := by
  have hloop : Spec (whileLoop (fun _ c => c.2.1 == .completed && c.2.2 != .none)
      (fun c => continueGlobalOperationStep c.1 env c.2.2) .outOfGas 4 0 (s, .completed, orc))
      (fun c => ∃ k, Continuing env s orc k c ∧ (c.2.1 == .completed && c.2.2 != .none) = false)
      (CallFails env (s.withOp orc)) := by
    refine whileLoop_spec_of_measure (J := Continuing env s orc)
      (fun c => if c.2.1 = .completed then phasesLeft c.2.2 else 0) (fun k c hc hguard => ?_) 4 0 _
      ⟨hs, .refl, fun h => absurd rfl h, nofun, fun _ => rfl⟩ ?_
    · simp only [Bool.and_eq_true, beq_iff_eq, bne_iff_ne] at hguard
      obtain ⟨hstatus, horc⟩ := hguard
      refine ⟨?_, (continueGlobalOperationStep_ticks hc.sound horc).mono (fun c' hc' => ?_)
        fun _ he => he.of_reaches hc.reaches⟩
      · rw [if_pos hstatus]
        exact Nat.pos_of_ne_zero (mt phasesLeft_eq_zero.mp horc)
      · have hreach : Reaches (tick env.blockNonce) (s.withOp orc) (c'.1.withOp c'.2.2) := by
          rcases hs' : c'.2.1 with _ | _
          · exact hc.reaches.trans (hc'.completed hs').1.to_reflTransGen
          · exact hc.reaches.trans (hc'.interrupted hs').reaches
        refine ⟨⟨hc'.sound, hreach, fun _ hs' => ?_, fun hs' => ?_, nofun⟩, ?_⟩
        · exact (hc'.completed hs').1.trans_right hc.reaches
        · by_cases hk : k = 0
          · obtain rfl := hc.start hk
            exact hc'.interrupted hs'
          · exact (hc'.interrupted hs').of_reaches (hc.progress hk hstatus)
        · rw [if_pos hstatus]
          split_ifs with hs'
          · exact (hc'.completed hs').2
          · exact Nat.pos_of_ne_zero (mt phasesLeft_eq_zero.mp horc)
    · simp only [if_true]
      exact phasesLeft_le orc
  refine Spec.bind hloop fun c ⟨k, hc, hguard⟩ => ⟨?_, hc.sound⟩
  obtain ⟨s₁, status, orc'⟩ := c
  cases status with
  | interruptedBeforeOutOfGas => exact hc.interrupted rfl
  | completed =>
    have hnone : orc' = .none := by simpa using hguard
    subst hnone
    refine ⟨hc.reaches, fun _ htick => hc.progress ?_ rfl, fun _ => rfl⟩
    rintro rfl
    have hstart := hc.start rfl
    simp only [Prod.mk.injEq, true_and] at hstart
    rw [← hstart.2] at htick
    exact htick rfl

end Ledger

end Delegation
