import Delegation.Latest.Consistent

/-!
# Operations that complete

Two facts about operations that are interrupted, in whatever way. The computation of all rewards is
exact when it completes: everybody is up to date, and what is stored and what was sent add up to
what has arrived. And the way in which an operation was cut into transactions leaves no trace: the
storage at its end is that of the same operation in one call.
-/

namespace Delegation

open Outcome Loop StateTransition FundStore Relation

namespace Ledger

variable {s s' : Ledger} {env env' : Env} {data : ComputeAllRewardsData}

/-! ### The computation of all rewards -/

/-- Everybody is up to date, and all that has arrived is stored or was sent. -/
structure AllComputed (s : Ledger) : Prop where
  checkpoint : ∀ u ∈ Finset.Icc 1 s.numUsers, s.userRewCheckpoint u = s.cumulatedRewards
  sum : ∑ u ∈ Finset.Icc 1 s.numUsers, s.userRewUnclaimed u + s.sentRewards = s.cumulatedRewards

/-- The remainder makes the sum exact. -/
theorem ComputedTo.withRemainder {remainder : ℕ} (h : s.ComputedTo data)
    (hpos : 0 < s.numUsers) (hcp : data.rewardsCheckpoint = s.cumulatedRewards)
    (hle : s.numUsers ≤ data.lastId)
    (hsum : data.sumUnclaimed + s.sentRewards + remainder = s.cumulatedRewards) :
    (s.withRemainder remainder).AllComputed := by
  have hlast : data.lastId = s.numUsers := le_antisymm h.lastId_le hle
  have hcheckpoint := h.checkpoint
  have hunclaimed := h.sumUnclaimed
  rw [hlast] at hcheckpoint hunclaimed
  have howner : ownerUserId ∈ Finset.Icc 1 s.numUsers := Finset.mem_Icc.mpr ⟨le_rfl, hpos⟩
  refine ⟨fun u hu => (hcheckpoint u hu).trans hcp, ?_⟩
  simp only [withRemainder_numUsers, withRemainder_userRewUnclaimed, withRemainder_sentRewards,
    withRemainder_cumulatedRewards]
  rw [Finset.sum_eq_add_sum_sdiff_singleton_of_mem howner] at hunclaimed
  rw [Finset.sum_update_of_mem howner]
  omega

/-- What holds between the iterations of `compute_all_rewards` from `s`. -/
structure ComputingFrom (s : Ledger) (c : Ledger × ComputeAllRewardsData) : Prop where
  computed : c.1.ComputedTo c.2
  checkpoint : c.2.rewardsCheckpoint = c.1.cumulatedRewards
  numUsers : c.1.numUsers = s.numUsers

theorem computeAllRewards_exact (hpos : 0 < s.numUsers) (h : s.ComputedTo data)
    (gasLow : ℕ → Bool) :
    Spec (s.computeAllRewards data gasLow)
      (fun r => match r.2 with
        | some data' => r.1.ComputedTo data'
        | none => r.1.AllComputed)
      (fun _ => True) := by
  have hstart : ComputingFrom s (s, s.restartIfMoreRewards data) := by
    simp only [restartIfMoreRewards]
    split_ifs with heq
    · exact ⟨h, heq, rfl⟩
    · exact ⟨computedTo_new s, rfl, rfl⟩
  have hloop : Spec (whileLoop (fun k c => decide (c.2.lastId < c.1.numUsers) && !gasLow k)
      computeNextReward .outOfGas (s.numUsers - (s.restartIfMoreRewards data).lastId) 0
      (s, s.restartIfMoreRewards data)) (ComputingFrom s) (fun _ => True) := by
    refine (whileLoop_spec (J := fun _ => ComputingFrom s) trivial (fun k c hc hguard => ?_)
      _ 0 _ hstart).imp fun c hc => ?_
    · rw [Bool.and_eq_true, decide_eq_true_eq] at hguard
      refine Spec.of_forall_ok fun c' hc' => ?_
      obtain ⟨userData, hload, rfl⟩ := computeNextReward_eq_ok.mp hc'
      exact ⟨hc.computed.next hc.checkpoint hguard.1 hload, hc.checkpoint, hc.numUsers⟩
    · obtain ⟨_, hc, -⟩ := hc
      exact hc
  refine Spec.bind hloop fun c hc => ?_
  obtain ⟨s₁, data₁⟩ := c
  obtain ⟨hcomputed, hcp, hnum⟩ := hc
  simp only at hcomputed hcp hnum ⊢
  split_ifs with hlt
  · exact hcomputed
  · refine Spec.bind (P := AllComputed) (Spec.of_forall_ok fun s₂ hs₂ => ?_) fun _ hall => hall
    obtain ⟨remainder, hsum, rfl⟩ := giveRemainderToOwner_eq_ok.mp hs₂
    exact hcomputed.withRemainder (by omega) hcp (not_lt.mp hlt) hsum

/-- Where a transaction runs `compute_all_rewards`: in an operation that it starts, or in one that
it continues. -/
inductive ComputesFrom (s : Ledger) : Ledger → ComputeAllRewardsData → Prop
  | starting {op : Operation} {s₀ : Ledger} {orc : GlobalOpCheckpoint}
      {data : ComputeAllRewardsData} (hop : s.globalOpCheckpoint = .none)
      (hopened : s.Opened op s₀ orc) (hdata : orc.computing = some data) : ComputesFrom s s₀ data
  | continuing {data : ComputeAllRewardsData} (hdata : s.globalOpCheckpoint.computing = some data) :
      ComputesFrom s s data

end Ledger

open Ledger

/-- **`compute_all_rewards` is exact.** In every reachable state the running sum of an interrupted
computation is the sum of what is stored; and when the computation returns, it has either stopped
with an exact sum again, or everybody is up to date and everything is accounted for. -/
theorem computeAllRewards_of_reachable {w : World} (h : Reachable (fun _ _ => True) w)
    {s s' : Ledger} {data : ComputeAllRewardsData} {gasLow : ℕ → Bool}
    {more : Option ComputeAllRewardsData} (hfrom : w.contract.ledger.ComputesFrom s data)
    (hcall : s.computeAllRewards data gasLow = .ok (s', more)) :
    data.sumUnclaimed = ∑ u ∈ Finset.Icc 1 data.lastId, s.userRewUnclaimed u ∧
    match more with
    | some data' => data'.sumUnclaimed = ∑ u ∈ Finset.Icc 1 data'.lastId, s'.userRewUnclaimed u
    | none => (∀ u ∈ Finset.Icc 1 s'.numUsers, s'.userRewCheckpoint u = s'.cumulatedRewards) ∧
        ∑ u ∈ Finset.Icc 1 s'.numUsers, s'.userRewUnclaimed u + s'.sentRewards =
          s'.cumulatedRewards := by
  have hc := h.consistent
  have hcomputed : s.ComputedTo data ∧ 0 < s.numUsers := by
    cases hfrom with
    | starting hop hopened hdata =>
      have hc₀ := hc.opened hopened
      exact ⟨(hc₀.books.computing data hdata).congr le_rfl le_rfl rfl rfl, hc₀.users.numUsers_pos⟩
    | continuing hdata => exact ⟨hc.books.computing data hdata, hc.users.numUsers_pos⟩
  refine ⟨hcomputed.1.sumUnclaimed, ?_⟩
  have hexact := (computeAllRewards_exact hcomputed.2 hcomputed.1 gasLow).of_ok hcall
  cases more with
  | some data' => exact hexact.sumUnclaimed
  | none => exact ⟨hexact.checkpoint, hexact.sum⟩

/-- A change of the service fee is interrupted after the first of two users, more rewards arrive,
and the computation is taken up again. -/
theorem computeAllRewards_of_reachable_fee :
    ∃ s' : Ledger, s'.numUsers = 2 ∧ s'.cumulatedRewards = 1007 ∧
      (∀ u ∈ Finset.Icc 1 s'.numUsers, s'.userRewCheckpoint u = s'.cumulatedRewards) ∧
      ∑ u ∈ Finset.Icc 1 s'.numUsers, s'.userRewUnclaimed u + s'.sentRewards =
        s'.cumulatedRewards := by
  let data : ComputeAllRewardsData := ⟨1, 640, 1000⟩
  let events : List Event :=
    [.transaction { Env.plain 1 0 9 with payment := 60 } .stake,
      .transaction { Env.plain 7 0 9 with payment := 40 } .stake, .reward 1000,
      .transaction { Env.plain 1 0 9 with gasLow := fun _ k => decide (k = 1) }
        (.setServiceFee 500),
      .reward 7]
  have hrun : ((World.deploy 1 0 2 1000 0 9 1 100).bind (·.run events)).bind (fun w =>
      (w.contract.ledger.computeAllRewards data never).toOption.map fun r =>
        (w.contract.ledger.globalOpCheckpoint.computing, r.2, r.1.numUsers,
          r.1.cumulatedRewards)) = some (some data, none, 2, 1007) := by
    decide +kernel
  obtain ⟨w, hw, hcall⟩ := Option.bind_eq_some_iff.mp hrun
  obtain ⟨⟨s', more⟩, hs', hobs⟩ := Option.map_eq_some_iff.mp hcall
  simp only [Prod.mk.injEq] at hobs
  obtain ⟨hdata, rfl, hnum, hcum⟩ := hobs
  have hreach : Reachable (fun _ _ => True) w :=
    .run (fun _ h => World.initial_deploy h) (fun _ _ _ => trivial) hw
  have hexact := computeAllRewards_of_reachable hreach (.continuing hdata)
    (toOption_eq_some.mp hs')
  exact ⟨s', hnum, hcum, hexact.2⟩

namespace Ledger

variable {s s' : Ledger} {env env' : Env}

/-! ### Transparency -/

/-- **Gas interruptions are transparent.** When an operation has been finished by calls with any
gas, the same operation in one call that is never interrupted ends with the same storage, unless
that one call visits too many funds. -/
theorem startOperation_eq_of_continued (hs : s.FundsSound) (op : Operation) {s₁ s₂ : Ledger}
    {status : OperationCompletionStatus} (hstart : s.startOperation env op = .ok (s₁, status))
    (hcont : Continued env.blockNonce s₁ s₂) (hdone : s₂.globalOpCheckpoint = .none)
    (hcaller : env'.caller = env.caller) (hnonce : env'.blockNonce = env.blockNonce)
    (hgas : ∀ i k, env'.gasLow i k = false) :
    Spec (s.startOperation env' op) (fun r => r.1 = s₂)
      (· = .scPanic "affected user capacity exceeded") := by
  obtain ⟨-, -, s₀, orc, hopened, heq⟩ := startOperation_opens hstart
  have hs₀ : s₀.FundsSound := by
    unfold FundsSound
    rw [hopened.funds]
    exact hs
  have hfirst := (continueGlobalOperation_ticks hs₀ env orc).of_ok ((heq env rfl).symm.trans hstart)
  -- the interrupted run takes the machine to its end
  have hreach := hfirst.1.reaches.trans (hcont.reaches hfirst.2).2
  have hend : tick env.blockNonce s₂ = none := by
    simp only [tick, hdone]
  have heval := mem_eval.mpr ⟨hreach, hend⟩
  rw [heq env' hcaller]
  refine (continueGlobalOperation_ticks hs₀ env' orc).mono (fun r hr => ?_) fun e he => ?_
  · have hr' := mem_eval.mpr ⟨hr.1.reaches, hr.1.halts hgas⟩
    rw [hnonce] at hr'
    exact Part.mem_unique hr' heval
  · rcases he with ⟨i, he⟩ | ⟨-, t, ht, hop, hnone⟩
    · exact he.1
    · -- the machine does not get stuck, because it has come to an end
      have ht' := mem_eval.mpr ⟨ht, hnone⟩
      rw [hnonce] at ht'
      rw [Part.mem_unique ht' heval, hdone] at hop
      exact absurd rfl hop

/-- A cut of the cap from 100 to 50, which is interrupted while rewards are computed and again
while funds are swapped, ends as it does in one call. -/
theorem startOperation_eq_of_continued_capCut :
    ∃ (s s₂ : Ledger) (status : OperationCompletionStatus), s.totalDelegationCap = 100 ∧
      s₂.totalDelegationCap = 50 ∧
      s.startOperation (.plain 1 5 9) (.modifyTotalDelegationCap 50) = .ok (s₂, status) := by
  let events : List Event :=
    [.transaction { Env.plain 1 0 9 with payment := 60 } .stake,
      .transaction { Env.plain 7 0 9 with payment := 40 } .stake, .reward 1000]
  let low (i : ℕ) : Env := { Env.plain 1 5 9 with gasLow := fun j k => decide (j = i ∧ k = 1) }
  let op : Operation := .modifyTotalDelegationCap 50
  have hrun : (((World.deploy 1 0 2 1000 0 9 1 100).bind (·.run events)).bind fun w =>
      (w.contract.ledger.startOperation (low 0) op).toOption.bind fun r₁ =>
        (r₁.1.continueGlobalOperationEndpoint (low 3)).toOption.bind fun r₂ =>
          (r₂.1.continueGlobalOperationEndpoint (low 9)).toOption.bind fun r₃ =>
            (w.contract.ledger.startOperation (.plain 1 5 9) op).toOption.map fun r =>
              (w.contract.ledger.totalDelegationCap, r₁.2, r₂.2, r₃.1.totalDelegationCap,
                r₃.1.globalOpCheckpoint)) =
        some (100, .interruptedBeforeOutOfGas, .interruptedBeforeOutOfGas, 50, .none) := by
    decide +kernel
  obtain ⟨w, hw, hrun⟩ := Option.bind_eq_some_iff.mp hrun
  obtain ⟨⟨s₁, status₁⟩, h₁, hrun⟩ := Option.bind_eq_some_iff.mp hrun
  obtain ⟨⟨s₂, status₂⟩, h₂, hrun⟩ := Option.bind_eq_some_iff.mp hrun
  obtain ⟨⟨s₃, status₃⟩, h₃, hrun⟩ := Option.bind_eq_some_iff.mp hrun
  obtain ⟨⟨s', status⟩, h', hobs⟩ := Option.map_eq_some_iff.mp hrun
  simp only [Prod.mk.injEq] at hobs
  obtain ⟨hcap, -, -, hcap', hdone⟩ := hobs
  have hreach : Reachable (fun _ _ => True) w :=
    .run (fun _ h => World.initial_deploy h) (fun _ _ _ => trivial) hw
  have hsecond : s₁.continueGlobalOperationEndpoint (low 3) = .ok (s₂, status₂) :=
    toOption_eq_some.mp h₂
  have hthird : s₂.continueGlobalOperationEndpoint (low 9) = .ok (s₃, status₃) :=
    toOption_eq_some.mp h₃
  have hnonce : ∀ i, (low i).blockNonce = 5 := fun _ => rfl
  have hcont : Continued 5 s₁ s₃ :=
    (Continued.refl.tail (hnonce 3) hsecond).tail (hnonce 9) hthird
  have hspec : Spec (w.contract.ledger.startOperation (.plain 1 5 9) op) (fun r => r.1 = s₃)
      (· = .scPanic "affected user capacity exceeded") :=
    startOperation_eq_of_continued hreach.consistent.sound op (toOption_eq_some.mp h₁) hcont hdone
      rfl rfl fun _ _ => rfl
  obtain rfl : s' = s₃ := hspec.of_ok (toOption_eq_some.mp h')
  exact ⟨w.contract.ledger, s', status, hcap, hcap', toOption_eq_some.mp h'⟩

end Ledger

end Delegation
