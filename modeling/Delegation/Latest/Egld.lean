import Delegation.Latest.Conservation
import Delegation.Latest.Solvency
import Delegation.Latest.Trace

/-!
# Where all the EGLD is

The contract never lists what it owns. What it has is spread over its balance, the calls in flight
that carry EGLD and what those calls have delivered; what it has to account for is spread over the
validator rewards, the stakes of the users, and what came in besides. `egld_of_run` says that the
two sides agree to the last unit, in every run of all endpoints: what was paid as rewards and as
stake is counted once, a call that fails gives back what it took, and no operation, cleanup or
callback, not even one that panics, makes EGLD or loses it.
-/

namespace Delegation

open Outcome FundStore Relation

/-- EGLD that comes in and is neither a reward nor a stake: what anybody sends, and the payments of
`unJailNodes` and `dnsRegister`. -/
def Event.donated : Event → ℕ
  | .receive egld => egld
  | .transaction env call => if call.administrative then env.payment else 0
  | .answer _ _ _ | .reward _ => 0

namespace Ledger

variable {s s' s'' : Ledger} {env : Env} {e : Event} {nonce : UInt64} {N egld egld' : ℕ}

/-- The balance and the rewards that were sent. -/
def held (s : Ledger) : ℕ := s.balance + s.sentRewards

/-- The rewards that have arrived and the stakes of the first `N` users. -/
def accountable (s : Ledger) (N : ℕ) : ℕ :=
  s.cumulatedRewards + ∑ u ∈ Finset.Icc 1 N, s.funds.stakeOf u

/-- The ledger gains EGLD that is neither a reward nor somebody's stake. -/
def Gains (N : ℕ) (s s' : Ledger) (egld : ℕ) : Prop :=
  s'.held + s.accountable N = s.held + s'.accountable N + egld

theorem Gains.trans (h : Gains N s s' egld) (h' : Gains N s' s'' egld') :
    Gains N s s'' (egld + egld') := by
  unfold Gains at h h' ⊢
  omega

/-- What neither moves EGLD nor changes a stake. -/
theorem gains_of_eq (hbalance : s'.balance = s.balance) (hsent : s'.sentRewards = s.sentRewards)
    (hcum : s'.cumulatedRewards = s.cumulatedRewards)
    (hstake : ∀ u, s'.funds.stakeOf u = s.funds.stakeOf u) : Gains N s s' 0 := by
  simp only [Gains, held, accountable, hbalance, hsent, hcum, hstake, add_zero]

theorem gains_credit (s : Ledger) (egld : ℕ) : Gains N s (s.credit egld) egld := by
  simp only [Gains, held, accountable, credit_balance, credit_sentRewards, credit_cumulatedRewards,
    credit_funds]
  omega

/-- What is added to the stake of one user adds to what there is to account for. -/
theorem sum_stakeOf_add {u : ℕ} (hu : u ∈ Finset.Icc 1 N)
    (h : ∀ v, s'.funds.stakeOf v = s.funds.stakeOf v + if v = u then egld else 0) :
    ∑ v ∈ Finset.Icc 1 N, s'.funds.stakeOf v = ∑ v ∈ Finset.Icc 1 N, s.funds.stakeOf v + egld := by
  rw [Finset.sum_congr rfl fun v _ => h v, Finset.sum_add_distrib, Finset.sum_ite_eq', if_pos hu]

/-- The payment of a deposit becomes the stake of the caller. -/
theorem Staked.gains (h : (s.credit env.payment).Staked env s') (hs : s.FundsSound)
    (hk : s'.UsersKnown) (hN : s'.numUsers ≤ N) : Gains N s s' 0 := by
  have hmem : s'.userId env.caller ∈ Finset.Icc 1 N :=
    Finset.mem_Icc.mpr ⟨Nat.one_le_iff_ne_zero.mpr h.userId_eq.1, (hk.userId_le _).trans hN⟩
  have hsum := sum_stakeOf_add (s := s) hmem (h.stakeOf_eq (s := s.credit _) hs)
  have hcum : s'.cumulatedRewards = s.cumulatedRewards := h.ordinary.cumulatedRewards
  obtain ⟨-, hdep, -, hre⟩ := h
  have hbalance : s'.balance = s.balance + env.payment := by rw [hre.frame, hdep.frame]; rfl
  have hsent : s'.sentRewards = s.sentRewards := by rw [hre.frame, hdep.frame]; rfl
  simp only [Gains, held, accountable, hbalance, hsent, hcum, hsum]
  omega

/-- What an unbond pays was the stake of the caller. -/
theorem UnBonded.gains {paid : ℕ} (h : s.UnBonded env s' paid) (hk : s.UsersKnown)
    (hN : s.numUsers ≤ N) : Gains N s s' 0 := by
  have hstake := h.stakeOf_eq
  obtain ⟨hid, -, -, -, -, hle⟩ := h
  have hmem : s.userId env.caller ∈ Finset.Icc 1 N :=
    Finset.mem_Icc.mpr ⟨Nat.one_le_iff_ne_zero.mpr hid, (hk.userId_le _).trans hN⟩
  have hsum := sum_stakeOf_add hmem fun v => (hstake v).symm
  simp only [Gains, held, accountable] at hsum ⊢
  omega

/-- What a claim pays is counted as sent. -/
theorem Claimed.gains {claimed : ℕ} (h : s.Claimed env s' claimed) : Gains N s s' 0 := by
  obtain ⟨-, -, -, hle⟩ := h
  simp only [Gains, held, accountable, storeUserRewardData_balance,
    storeUserRewardData_sentRewards, storeUserRewardData_cumulatedRewards,
    storeUserRewardData_funds]
  omega

theorem UnStaked.balance_eq {amount : ℕ} (h : s.UnStaked env amount s') :
    s'.balance = s.balance := by
  cases h with
  | fromWaiting => rfl
  | fromActive _ _ _ hset _ _ _ _ _ _ hre => rw [hre.frame, hset.frame]

theorem ActiveCleaned.frame_eq {dustLimit : ℕ} (h : s.ActiveCleaned env dustLimit s') :
    s'.balance = s.balance ∧ s'.sentRewards = s.sentRewards := by
  obtain ⟨-, -, hset, hsw, hre⟩ := h
  rw [hre.frame, hsw.frame, hset.frame]
  exact ⟨rfl, rfl⟩

theorem Act.numUsers_le (ha : s.Act e s') : s.numUsers ≤ s'.numUsers := by
  cases ha with
  | staked hst => rcases hst.userId_eq.2.2 with ⟨-, -, hnum⟩ | ⟨-, hnum⟩ <;> simp_all
  | kept _ hk => rw [hk.frame]; exact le_rfl
  | unStaked _ hun => exact hun.books.2.1.ge
  | unBonded _ hun =>
    obtain ⟨-, -, -, -, -, -⟩ := hun
    exact le_rfl
  | claimed _ hcl =>
    obtain ⟨-, -, -, -⟩ := hcl
    exact le_rfl
  | operated _ _ _ hopened => cases hopened <;> exact le_rfl
  | waitingCleaned _ h => cases h <;> exact le_rfl
  | activeCleaned _ h =>
    obtain ⟨-, -, hset, hsw, hre⟩ := h
    rw [hre.frame, hsw.frame, hset.frame]
  | answered | received | continued | rewarded => exact le_rfl

/-- **An act moves EGLD only where it is accounted for.** -/
theorem Act.gains (hc : s.Consistent) (ha : s.Act e s') (hN : s'.numUsers ≤ N)
    (hadm : ∀ env call, e = .transaction env call → call.administrative = false)
    (hanswer : ∀ i blockNonce result, e ≠ .answer i blockNonce result) :
    Gains N s s' e.donated := by
  have hc' := hc.act ha
  have hle := ha.numUsers_le
  cases ha with
  | answered => exact absurd rfl (hanswer _ _ _)
  | received => exact gains_credit s _
  | rewarded =>
    simp only [Gains, held, accountable, arriveRewards_balance, arriveRewards_sentRewards,
      arriveRewards_cumulatedRewards, arriveRewards_funds, Event.donated]
    omega
  | kept hcall =>
    rw [hadm _ _ rfl] at hcall
    cases hcall
  | staked h => exact h.gains hc.sound hc'.users hN
  | unBonded _ h => exact h.gains hc.users (hle.trans hN)
  | claimed _ h => exact h.gains
  | unStaked _ h =>
    exact gains_of_eq h.balance_eq h.books.2.2 h.ordinary.cumulatedRewards h.stakeOf_eq
  | @operated _ op _ _ _ _ _ hopened =>
    cases hopened <;> exact gains_of_eq rfl rfl rfl fun _ => rfl
  | continued => exact gains_of_eq rfl rfl rfl fun _ => rfl
  | waitingCleaned _ h =>
    have hstake := h.stakeOf_eq
    cases h <;> exact gains_of_eq rfl rfl rfl hstake
  | activeCleaned _ h =>
    exact gains_of_eq h.frame_eq.1 h.frame_eq.2 h.ordinary.cumulatedRewards h.stakeOf_eq

/-- Ticks neither pay nor enrol anybody. -/
theorem Ticked.chain_paid (ht : ReflTransGen (Ticked nonce) s s') :
    s'.sentRewards = s.sentRewards ∧ s'.paidOut = s.paidOut ∧ s'.numUsers = s.numUsers := by
  induction ht with
  | refl => exact ⟨rfl, rfl, rfl⟩
  | tail _ hlast ih =>
    rw [← ih.1, ← ih.2.1, ← ih.2.2]
    cases hlast <;> exact ⟨rfl, rfl, rfl⟩

theorem Ticked.gains_of_ticks (ht : ReflTransGen (Ticked nonce) s s') : Gains N s s' 0 := by
  induction ht with
  | refl => exact gains_of_eq rfl rfl rfl fun _ => rfl
  | @tail s' s'' _ hlast ih =>
    have hstake := hlast.stakeOf_eq
    suffices h : Gains N _ _ 0 from ih.trans h
    cases hlast <;> exact gains_of_eq rfl rfl rfl hstake

end Ledger

namespace Contract

variable {c c' : Contract} {env : Env} {call : Call} {issued : Option AsyncCall}

/-- What an administrative call takes from the balance goes with the call that it sends. -/
theorem Administered.balance_eq (h : c.Administered env call c' issued)
    (hpay : env.payment ≤ c.ledger.balance) :
    c'.ledger.balance + (issued.toList.map AsyncCall.egld).sum = c.ledger.balance := by
  cases h with
  | nodesAdded | nodesRemoved | periodForced | nothingToUnbond => rfl
  | prepared _ _ _ hle =>
    simp only [sent, Option.toList_some, List.map_singleton, List.sum_singleton]
    omega
  | requested hegld =>
    simp only [sent, Option.toList_some, List.map_singleton, List.sum_singleton]
    omega
  | settingWritten _ hframe =>
    simp only [Option.toList_none, List.map_nil, List.sum_nil, add_zero]
    rw [hframe]
  | addressesUpdated =>
    simp only [Option.toList_none, List.map_nil, List.sum_nil, add_zero]
    rw [Ledger.updateUserAddress_frame]

end Contract

/-! ### Steps -/

/-- The EGLD of the calls that have not been answered. -/
def World.outstanding (w : World) : ℕ := (w.inFlight.map AsyncCall.egld).sum

/-- The EGLD of a call, unless the call fails. -/
def AsyncCall.delivered (call : AsyncCall) : CallResult → ℕ
  | .ok _ => call.egld
  | .err _ => 0

/-- The EGLD of the call that is answered in a step, unless it is given back. -/
def Transition.delivered (t : Transition) : ℕ :=
  match t.event with
  | .answer i _ result => (t.before.inFlight[i]?.elim 0 fun call => call.delivered result)
  | _ => 0

/-- The call that is answered is one of those in flight. -/
theorem World.outstanding_eq {w : World} {i : ℕ} {call : AsyncCall}
    (h : w.inFlight[i]? = some call) :
    w.outstanding = call.egld + ((w.inFlight.eraseIdx i).map AsyncCall.egld).sum := by
  obtain ⟨hi, rfl⟩ := List.getElem?_eq_some_iff.mp h
  have hperm := (List.getElem_cons_eraseIdx_perm hi).map AsyncCall.egld
  rw [outstanding, ← hperm.sum_eq, List.map_cons, List.sum_cons]

namespace Contract

variable {c c' : Contract} {env : Env} {call : Call} {issued : Option AsyncCall} {N : ℕ}

/-- An administrative call sends what it takes, and its payment comes in. -/
theorem administered_egld (hcall : call.administrative = true)
    (h : c.transaction env call = .ok (c', issued)) :
    c'.ledger.held + (issued.toList.map AsyncCall.egld).sum + c.ledger.accountable N =
      c.ledger.held + c'.ledger.accountable N + env.payment := by
  obtain ⟨_, -, h⟩ := bind_eq_ok.mp h
  have hadm := endpoint_administered hcall h
  have hbalance : c'.ledger.balance + (issued.toList.map AsyncCall.egld).sum =
      c.ledger.balance + env.payment := hadm.balance_eq (Nat.le_add_left _ _)
  have hframe := hadm.kept.frame
  have hsent : c'.ledger.sentRewards = c.ledger.sentRewards := by rw [hframe]; rfl
  have hacc : c'.ledger.accountable N = c.ledger.accountable N := by
    unfold Ledger.accountable
    rw [hframe]
    rfl
  simp only [Ledger.held, hsent, hacc]
  omega

/-- Every other call keeps its EGLD to itself. -/
theorem issued_eq_none (hcall : call.administrative = false)
    (h : c.transaction env call = .ok (c', issued)) : issued = none := by
  obtain ⟨_, -, h⟩ := bind_eq_ok.mp h
  exact (endpoint_onLedger hcall h).2

/-- A failed call gives back what it took. -/
theorem returned_egld (c : Contract) (call : AsyncCall) (result : CallResult) :
    (c.returned call result).ledger.held + call.delivered result + c.ledger.accountable N =
      c.ledger.held + (c.returned call result).ledger.accountable N + call.egld := by
  cases result with
  | ok =>
    simp only [returned, AsyncCall.delivered]
    omega
  | err =>
    have hgains : Ledger.Gains N c.ledger (c.credit call.egld).ledger call.egld :=
      Ledger.gains_credit c.ledger call.egld
    unfold Ledger.Gains at hgains
    simp only [returned, AsyncCall.delivered]
    omega

theorem answer_returned {blockNonce : UInt64} {call : AsyncCall} {result : CallResult}
    (h : c.answer blockNonce call result = .ok c') :
    c'.ledger = (c.returned call result).ledger := by
  simp only [answer] at h
  split at h
  · obtain ⟨nodes, -, h⟩ := bind_eq_ok.mp h
    cases h
    rfl
  · cases h
    rfl

end Contract

theorem Step.numUsers_le {w w' : World} {e : Event} (hc : w.contract.ledger.Consistent)
    (h : Step w e w') : w.contract.ledger.numUsers ≤ w'.contract.ledger.numUsers := by
  obtain ⟨s₁, ha, hticks⟩ := h.acts hc.sound hc.dust (hc.userTotal_zero rfl)
  rw [(Ledger.Ticked.chain_paid hticks).2.2]
  exact ha.numUsers_le

/-- **No step makes EGLD or loses it.** -/
theorem Step.egld_eq {w w' : World} {e : Event} {N : ℕ} (hc : w.contract.ledger.Consistent)
    (h : Step w e w') (hN : w'.contract.ledger.numUsers ≤ N) :
    w'.contract.ledger.held + w'.outstanding + (⟨w, e, w'⟩ : Transition).delivered +
        w.contract.ledger.accountable N =
      w.contract.ledger.held + w.outstanding + w'.contract.ledger.accountable N + e.donated := by
  obtain ⟨s₁, ha, hticks⟩ := h.acts hc.sound hc.dust (hc.userTotal_zero rfl)
  have hnum := (Ledger.Ticked.chain_paid hticks).2.2
  have hgains (hadm : ∀ env call, e = .transaction env call → call.administrative = false)
      (hanswer : ∀ i blockNonce result, e ≠ .answer i blockNonce result) :
      Ledger.Gains N w.contract.ledger w'.contract.ledger e.donated :=
    (ha.gains hc (hnum ▸ hN) hadm hanswer).trans (Ledger.Ticked.gains_of_ticks hticks)
  cases h with
  | @transaction env call c issued htx =>
    have hout : (⟨c, w.inFlight ++ issued.toList⟩ : World).outstanding =
        w.outstanding + (issued.toList.map AsyncCall.egld).sum := by
      simp only [World.outstanding, List.map_append, List.sum_append]
    have hegld : c.ledger.held + (issued.toList.map AsyncCall.egld).sum +
        w.contract.ledger.accountable N = w.contract.ledger.held + c.ledger.accountable N +
          (Event.transaction env call).donated := by
      cases hcall : call.administrative with
      | true =>
        rw [Event.donated, if_pos hcall]
        exact Contract.administered_egld hcall htx
      | false =>
        have hnone := Contract.issued_eq_none hcall htx
        have hgains := hgains (fun _ _ heq => by cases heq; exact hcall) nofun
        rw [hnone]
        exact hgains
    simp only [hout, Transition.delivered]
    omega
  | @answer i _ result call c hi hok =>
    have hegld := w.contract.returned_egld call result (N := N)
    have hout := World.outstanding_eq hi
    simp only [Contract.answer_returned hok, Transition.delivered, hi, Option.elim_some,
      Event.donated, hout]
    simp only [World.outstanding]
    omega
  | @answerPanic i _ result call p hi _ =>
    have hegld := w.contract.returned_egld call result (N := N)
    have hout := World.outstanding_eq hi
    simp only [Transition.delivered, hi, Option.elim_some, Event.donated, hout]
    simp only [World.outstanding]
    omega
  | reward | receive =>
    have hgains := hgains nofun nofun
    simp only [Ledger.Gains] at hgains
    simp only [World.outstanding, Transition.delivered]
    omega

/-! ### Runs -/

/-- What the calls of a run have delivered. -/
def Trace.delivered (trace : List Transition) : ℕ := (trace.map Transition.delivered).sum

/-- What came in over a run and is neither a reward nor a stake. -/
def Trace.donated (trace : List Transition) : ℕ := (trace.map fun t => t.event.donated).sum

theorem Initial.accountable {w : World} (h : Initial w) (N : ℕ) :
    w.contract.ledger.accountable N = 0 ∧ w.contract.ledger.sentRewards = 0 ∧
      w.outstanding = 0 := by
  cases h with
  | init h =>
    obtain ⟨_, -, h⟩ := bind_eq_ok.mp h
    obtain ⟨_, -, h⟩ := bind_eq_ok.mp h
    cases h
    exact ⟨by simp [Ledger.accountable, FundStore.stakeOf, FundStore.holding, FundStore.empty],
      rfl, rfl⟩

theorem Run.egld_eq {w₀ w : World} {allowed : World → Event → Prop} {trace : List Transition}
    (h : Run allowed w₀ trace w) (h₀ : Initial w₀) {N : ℕ}
    (hN : w.contract.ledger.numUsers ≤ N) :
    w.contract.ledger.held + w.outstanding + Trace.delivered trace =
      w₀.contract.ledger.balance + w.contract.ledger.accountable N + Trace.donated trace := by
  induction h with
  | start =>
    obtain ⟨hacc, hsent, hout⟩ := h₀.accountable N
    simp [Ledger.held, Trace.delivered, Trace.donated, hacc, hsent, hout]
  | step hrun _ hs ih =>
    have hc := (hrun.reachable h₀).consistent
    have hle := hs.numUsers_le hc
    have hstep := hs.egld_eq hc hN
    have ih := ih (hle.trans hN)
    simp only [Trace.delivered, Trace.donated, List.map_append, List.sum_append, List.map_cons,
      List.map_nil, List.sum_cons, List.sum_nil] at ih ⊢
    omega

/-- **All EGLD is accounted for.** After every run of all endpoints from a deployment: the balance,
the rewards that were sent, the EGLD in flight and what calls have delivered are the balance of the
deployment, the validator rewards that have arrived, the stakes of all users, and what came in
besides. -/
theorem egld_of_run {w₀ w : World} {trace : List Transition} (h₀ : Initial w₀)
    (h : Run (fun _ _ => True) w₀ trace w) :
    w.contract.ledger.balance + w.contract.ledger.sentRewards + w.outstanding +
        Trace.delivered trace =
      w₀.contract.ledger.balance + w.contract.ledger.cumulatedRewards +
        ∑ u ∈ Finset.Icc 1 w.contract.ledger.numUsers, w.contract.ledger.userTotalStake u +
        Trace.donated trace := by
  have hc := (h.reachable h₀).consistent
  have hegld := h.egld_eq h₀ le_rfl
  have hstake : ∑ u ∈ Finset.Icc 1 w.contract.ledger.numUsers, w.contract.ledger.userTotalStake u =
      ∑ u ∈ Finset.Icc 1 w.contract.ledger.numUsers, w.contract.ledger.funds.stakeOf u :=
    Finset.sum_congr rfl fun u hu =>
      Ledger.userTotalStake_eq hc.sound (by have := (Finset.mem_Icc.mp hu).1; omega)
  simp only [Ledger.held, Ledger.accountable, hstake] at hegld ⊢
  omega

/-- Of 100 staked and 1000 of rewards, one delegator has claimed 90, 60 have been delivered with a
call, the 30 of another call have come back, and one more call with 5 is in flight. -/
theorem egld_of_run_calls :
    ∃ (w₀ w : World) (trace : List Transition), Initial w₀ ∧ Run (fun _ _ => True) w₀ trace w ∧
      w.contract.ledger.sentRewards = 90 ∧ w.outstanding = 5 ∧ Trace.delivered trace = 60 ∧
      w.contract.ledger.balance + 90 + 5 + 60 = 3 + 1000 +
        ∑ u ∈ Finset.Icc 1 w.contract.ledger.numUsers, w.contract.ledger.userTotalStake u + 4 := by
  let events : List Event :=
    [.transaction { Env.plain 1 0 9 with payment := 90 } .stake,
      .transaction { Env.plain 7 0 9 with payment := 10 } .stake, .reward 1000,
      .transaction (.plain 7 1 9) .claimRewards,
      .transaction (.plain 1 0 9) (.addNodes [(5, 50), (6, 60), (8, 80)]),
      .transaction (.plain 1 1 9) (.stakeNodes 60 [5]), .receive 4,
      .transaction (.plain 1 1 9) (.stakeNodes 30 [6]),
      .transaction (.plain 1 1 9) (.stakeNodes 5 [8]), .answer 0 1 (.ok []),
      .answer 0 1 (.err "")]
  have hrun : ((World.deploy 1 3 2 1000 0 9 1 100).bind fun w₀ => (w₀.record events).map fun r =>
      [w₀.contract.ledger.balance, r.2.contract.ledger.cumulatedRewards,
        r.2.contract.ledger.sentRewards, r.2.outstanding, Trace.delivered r.1,
        Trace.donated r.1]) = some [3, 1000, 90, 5, 60, 4] := by
    decide +kernel
  obtain ⟨w₀, hw₀, hrun⟩ := Option.bind_eq_some_iff.mp hrun
  obtain ⟨⟨trace, w⟩, hrecord, hobs⟩ := Option.map_eq_some_iff.mp hrun
  simp only [List.cons.injEq, and_true] at hobs
  obtain ⟨hbalance, hcum, hsent, hout, hdelivered, hdonated⟩ := hobs
  have hinit := World.initial_deploy hw₀
  have hhist : Run (fun _ _ => True) w₀ trace w := World.run_record hrecord fun _ _ => trivial
  have hegld := egld_of_run hinit hhist
  rw [hbalance, hcum, hsent, hout, hdelivered, hdonated] at hegld
  exact ⟨w₀, w, trace, hinit, hhist, hsent, hout, hdelivered, hegld⟩

end Delegation
