import Delegation.Latest.CapProgress

/-!
# A change of the cap ends in the new cap

When bootstrap mode ends, the funds that there are count as the previous cap. A new cap that is
equal to it changes nothing, as the code says, but for the stored cap: that is still the one of
before, which is higher, and the call returns without storing the new one.

This is the only defect. In runs in which no call has dropped its cap like that, every change of the
cap heads for the new cap from its first transaction on (`HeadsFor`), whatever happens between its
transactions, and calls that continue it finish it (`EndsInCap`).
-/

namespace Delegation

open Outcome FundStore StateTransition Relation

/-- Neither a cleanup of dust nor a switch of a feature. -/
def Event.ordinary : Event → Bool
  | .transaction _ (.setFeatureFlag _ _) => false
  | e => !e.cleansDust

theorem Event.cleansDust_of_ordinary {e : Event} (h : e.ordinary = true) :
    e.cleansDust = false := by
  cases e with
  | transaction env call =>
    cases call <;> first | rfl | cases h
  | _ => rfl

/-! ### The switches of the features -/

namespace Contract

variable {c c' : Contract} {env : Env} {call : Call} {issued : Option AsyncCall}

/-- No administrative call but `setFeatureFlag` switches a feature. -/
theorem Administered.featureFlag_eq (h : c.Administered env call c' issued)
    (ho : (Event.transaction env call).ordinary = true) :
    c'.ledger.featureFlag = c.ledger.featureFlag := by
  cases h with
  | settingWritten _ _ hflag =>
    rcases hflag with hflag | ⟨_, _, rfl⟩
    · exact hflag
    · cases ho
  | addressesUpdated =>
    simp only
    rw [Ledger.updateUserAddress_frame]
  | _ => rfl

end Contract

namespace Ledger

variable {s s' : Ledger} {env : Env} {e : Event} {nonce : UInt64} {newTotalCap : ℕ}

theorem Act.featureFlag_eq (ha : s.Act e s')
    (hcall : ∀ env call, e = .transaction env call → call.administrative = false) :
    s'.featureFlag = s.featureFlag := by
  cases ha with
  | answered | received | rewarded | continued => rfl
  | kept hadmin =>
    rw [hcall _ _ rfl] at hadmin
    cases hadmin
  | staked hst =>
    obtain ⟨-, hdep, -, hre⟩ := hst
    rw [hre.frame, hdep.frame]
    rfl
  | unStaked _ hun =>
    cases hun with
    | fromWaiting => rfl
    | fromActive _ _ _ hset _ _ _ _ _ _ hre =>
      rw [hre.frame, hset.frame]
  | unBonded _ hun =>
    obtain ⟨-, -, -, -, -, -⟩ := hun
    rfl
  | claimed _ hcl =>
    obtain ⟨-, -, -, -⟩ := hcl
    rfl
  | operated _ _ _ hopened => cases hopened <;> rfl
  | waitingCleaned _ hw => cases hw <;> rfl
  | activeCleaned _ hw =>
    obtain ⟨-, -, hset, hsw, hre⟩ := hw
    rw [hre.frame, hsw.frame, hset.frame]

theorem Ticked.chain_featureFlag (ht : ReflTransGen (Ticked nonce) s s') :
    s'.featureFlag = s.featureFlag := by
  induction ht with
  | refl => rfl
  | tail _ hlast ih =>
    rw [← ih]
    cases hlast <;> rfl

end Ledger

open Ledger

theorem Step.featureFlag_eq {w w' : World} {e : Event} (hc : w.contract.ledger.Consistent)
    (he : e.ordinary = true) (hs : Step w e w') :
    w'.contract.ledger.featureFlag = w.contract.ledger.featureFlag := by
  by_cases hcall : ∃ env call, e = .transaction env call ∧ call.administrative = true
  · obtain ⟨env, call, rfl, hadmin⟩ := hcall
    cases hs with
    | @transaction _ _ c _ h =>
      obtain ⟨_, -, h⟩ := bind_eq_ok.mp h
      have hflag : c.ledger.featureFlag = (w.contract.credit env.payment).ledger.featureFlag :=
        (Contract.endpoint_administered hadmin h).featureFlag_eq he
      exact hflag
  · obtain ⟨s₁, ha, hticks⟩ := hs.acts hc.sound hc.dust (hc.userTotal_zero rfl)
    rw [Ticked.chain_featureFlag hticks]
    exact ha.featureFlag_eq fun env call heq => by
      simpa using fun hadmin => hcall ⟨env, call, heq, hadmin⟩

/-! ### Runs in which no new cap is dropped -/

/-- The steps of such runs. -/
def KeepsNewCap (w : World) (e : Event) : Prop :=
  e.ordinary = true ∧ ¬ w.contract.ledger.DropsNewCap e

namespace Ledger

variable {s s' : Ledger} {nonce : UInt64}

/-- What such runs keep. -/
structure InOrder (s : Ledger) : Prop where
  accounted : s.Accounted
  onTrack : s.OnTrack
  featureFlag : s.featureFlag = fun _ => none

theorem InOrder.ticks (h : s.InOrder) (ht : ReflTransGen (Ticked nonce) s s') : s'.InOrder := by
  refine ⟨h.accounted.ticks ht, ?_, (Ticked.chain_featureFlag ht).trans h.featureFlag⟩
  have hrun : s'.Consistent ∧ s'.OnTrack :=
    h.accounted.consistent.ticks (fun _ _ hc hon htick => hon.ticked hc.books htick) h.onTrack ht
  exact hrun.2

end Ledger

theorem Step.inOrder {w w' : World} {e : Event} (h : w.contract.ledger.InOrder)
    (he : KeepsNewCap w e) (hs : Step w e w') : w'.contract.ledger.InOrder := by
  have hacc := h.accounted
  have hc := hacc.consistent
  have hdust := e.cleansDust_of_ordinary he.1
  obtain ⟨s₁, ha, hticks⟩ := hs.acts hc.sound hc.dust (hc.userTotal_zero rfl)
  have hacc₁ := hacc.act ha hdust
  have hon₁ := h.onTrack.act hc hacc.oneSided ha hdust he.2
  have hrun : w'.contract.ledger.Consistent ∧ w'.contract.ledger.OnTrack :=
    hacc₁.consistent.ticks (fun _ _ hc hon htick => hon.ticked hc.books htick) hon₁ hticks
  exact ⟨hacc₁.ticks hticks, hrun.2, (hs.featureFlag_eq hc he.1).trans h.featureFlag⟩

theorem inOrder_of_initial {w : World} (h : Initial w) : w.contract.ledger.InOrder where
  accounted := (Reachable.initial h).accounted
  onTrack := by
    cases h with
    | init h =>
      obtain ⟨_, -, h⟩ := bind_eq_ok.mp h
      obtain ⟨_, -, h⟩ := bind_eq_ok.mp h
      cases h
      exact ⟨.inl ⟨rfl, Nat.zero_le _⟩, nofun⟩
  featureFlag := by
    cases h with
    | init h =>
      obtain ⟨_, -, h⟩ := bind_eq_ok.mp h
      obtain ⟨_, -, h⟩ := bind_eq_ok.mp h
      cases h
      rfl

theorem Reachable.inOrder {w : World} (h : Reachable KeepsNewCap w) :
    w.contract.ledger.InOrder :=
  h.invariant (fun _ => inOrder_of_initial) fun _ _ _ hw he hs => hs.inOrder hw he

/-! ### What a change of the cap heads for -/

/-- The cap that an operation will store. -/
def GlobalOpCheckpoint.newCap : GlobalOpCheckpoint → Option ℕ
  | .modifyTotalDelegationCap mdcapData => some mdcapData.newDelegationCap
  | .none | .changeServiceFee _ _ => Option.none

@[simp]
theorem GlobalOpCheckpoint.newCap_withData (op : GlobalOpCheckpoint)
    (data : ComputeAllRewardsData) : (op.withData data).newCap = op.newCap := by
  cases op <;> rfl

namespace Ledger

variable {s s' : Ledger} {env : Env} {e : Event} {nonce : UInt64} {newTotalCap : ℕ}

/-- The change to `newTotalCap` is in progress, or it is over, with that cap stored and filled. -/
def HeadsFor (s : Ledger) (newTotalCap : ℕ) : Prop :=
  s.globalOpCheckpoint.newCap = some newTotalCap ∨
    s.globalOpCheckpoint = .none ∧ s.totalDelegationCap = newTotalCap ∧ s.CapInvariant

theorem CapFilled.capInvariant (h : s.CapFilled 0) (hop : s.globalOpCheckpoint = .none) :
    s.CapInvariant := by
  have hfilled := h.filled (by rw [hop]; rfl)
  simp only [CapInvariant, h.bootstrapMode, Bool.false_eq_true, if_false]
  omega

/-- What is opened heads for the new cap, unless that is dropped. -/
theorem Opened.headsFor {s₀ : Ledger} {orc : GlobalOpCheckpoint} (h : s.OnTrack)
    (hone : s.OneSided) (hop : s.globalOpCheckpoint = .none)
    (ho : s.Opened (.modifyTotalDelegationCap newTotalCap) s₀ orc)
    (hkeeps : ¬ s.DropsNewCap (.transaction env (.modifyTotalDelegationCap newTotalCap))) :
    (s₀.withOp orc).HeadsFor newTotalCap := by
  cases ho with
  | capStored hboot hlt =>
    refine .inr ⟨rfl, rfl, ?_⟩
    simp only [maxAvailable, userStakeOfType_zero] at hlt
    simp only [CapInvariant, withOp_bootstrapMode, hboot, if_true, withOp_funds,
      withOp_totalDelegationCap]
    omega
  | bootstrapEnded hboot =>
    have hstored : s.maxAvailable = s.totalDelegationCap :=
      not_not.mp fun hne => hkeeps ⟨hboot, hne, _, rfl⟩
    refine .inr ⟨rfl, hstored.symm, ?_⟩
    obtain ⟨hwaiting, -⟩ := hone.bootstrap hboot
    simp only [maxAvailable, userStakeOfType_zero] at hstored
    simp only [CapInvariant, withOp_bootstrapMode, Bool.false_eq_true, if_false, withOp_funds,
      withOp_totalDelegationCap]
    omega
  | capKept hboot =>
    refine .inr ⟨rfl, rfl, ?_⟩
    rcases h.cap with ⟨hb, -⟩ | hfilled
    · rw [hboot] at hb
      cases hb
    · exact hfilled.capInvariant hop
  | capChange _ _ hplan => cases hplan <;> exact .inl rfl

theorem HeadsFor.act (h : s.HeadsFor newTotalCap) (ha : s.Act e s') (he : e.cleansDust = false)
    (hop : s.globalOpCheckpoint ≠ .none) : s'.HeadsFor newTotalCap := by
  have hnew := h.resolve_right fun hidle => hop hidle.1
  exact .inl ((congrArg GlobalOpCheckpoint.newCap (ha.of_busy he hop).1).trans hnew)

theorem HeadsFor.ticked (h : s.HeadsFor newTotalCap) (hon : s.OnTrack) (hb : s.BooksKept)
    (ht : Ticked nonce s s') : s'.HeadsFor newTotalCap := by
  have hnew := h.resolve_right fun hidle => ht.ne_none hidle.1
  have hon' := hon.ticked hb ht
  cases ht with
  | restarted | settled =>
    refine .inl ?_
    rw [withOp_globalOpCheckpoint, GlobalOpCheckpoint.newCap_withData]
    exact hnew
  | feeChanged hop =>
    rw [hop] at hnew
    cases hnew
  | capChanged hop =>
    rw [hop] at hnew
    refine .inr ⟨rfl, Option.some.inj hnew, ?_⟩
    rcases hon'.cap with ⟨hboot, -⟩ | hfilled
    · rw [(hb.bootstrap hboot).2] at hop
      cases hop
    · exact hfilled.capInvariant rfl
  | rewardsComputed hop | activated hop | allActivated hop | unstakedDeferred hop
  | allUnstakedDeferred hop | activeDeferred hop =>
    rw [hop] at hnew
    exact .inl hnew

theorem HeadsFor.ticks (h : s.HeadsFor newTotalCap) (hc : s.Consistent) (hon : s.OnTrack)
    (ht : ReflTransGen (Ticked nonce) s s') : s'.HeadsFor newTotalCap := by
  have hrun : s'.Consistent ∧ s'.OnTrack ∧ s'.HeadsFor newTotalCap :=
    hc.ticks (J := fun s => s.OnTrack ∧ s.HeadsFor newTotalCap)
      (fun _ _ hc ⟨hon, h⟩ htick => ⟨hon.ticked hc.books htick, h.ticked hon hc.books htick⟩)
      ⟨hon, h⟩ ht
  exact hrun.2.2

end Ledger

/-! ### The calls that continue an operation -/

namespace Contract

variable {c c' : Contract} {env : Env} {issued : Option AsyncCall}

/-- `continueGlobalOperation` is a chain of ticks, and fails only when it visits too many funds. -/
theorem continue_spec (h : c.ledger.InOrder) (hpay : env.payment = 0) :
    Spec (c.transaction env .continueGlobalOperation)
      (fun r => Ledger.Called env c.ledger r.1.ledger)
      fun p => ∃ i, FundStore.IsCapacity (env.gasLow i) p := by
  have hcredit : c.credit env.payment = c := by
    rw [hpay]
    rfl
  have hfeature : c.ledger.checkFeatureOn "continueGlobalOperation" true = .ok () := by
    simp only [Ledger.checkFeatureOn, h.featureFlag, Option.getD_none]
    rfl
  have hcall : Spec (c.ledger.continueGlobalOperationEndpoint env)
      (fun r => Ledger.Called env c.ledger r.1)
      fun p => ∃ i, FundStore.IsCapacity (env.gasLow i) p := by
    simp only [Ledger.continueGlobalOperationEndpoint, hfeature, ok_bind]
    refine (Ledger.continueGlobalOperation_ticks h.accounted.consistent.sound env _).mono
      (fun r hr => hr.1) fun p hp => hp.resolve_right fun hstuck => ?_
    exact h.accounted.not_getsStuck hstuck.2
  refine Spec.bind (spec_require fun hnot => absurd (.inr hpay) hnot) fun _ _ => ?_
  rw [hcredit]
  refine Spec.intro (fun r hr => ?_) fun p hp =>
    (spec_onLedgerFst (hcall.imp fun _ _ => trivial)).of_error hp
  obtain ⟨-, ledger, status, hcontinue, hledger⟩ := onLedgerFst_eq_ok hr
  rw [hledger]
  exact hcall.of_ok hcontinue

end Contract

/-- A call of `continueGlobalOperation` whose gas pays for one item of each of its loops. -/
def Continues (w w' : World) : Prop :=
  ∃ env, (∀ i, env.gasLow i 0 = false) ∧ Step w (.transaction env .continueGlobalOperation) w'

/-- **Each such call is progress**, until the operation is over. -/
theorem Continues.work_lt {w w' : World} (h : w.contract.ledger.InOrder) (hcall : Continues w w') :
    w'.contract.ledger.InOrder ∧
      (w.contract.ledger.globalOpCheckpoint = .none →
        w'.contract.ledger.globalOpCheckpoint = .none) ∧
      (w.contract.ledger.globalOpCheckpoint ≠ .none →
        w'.contract.ledger.work < w.contract.ledger.work) := by
  obtain ⟨env, hgas, hstep⟩ := hcall
  have hnot : ¬ w.contract.ledger.DropsNewCap (.transaction env .continueGlobalOperation) := by
    rintro ⟨-, -, _, heq⟩
    cases heq
  refine ⟨hstep.inOrder h ⟨rfl, hnot⟩, ?_⟩
  cases hstep with
  | @transaction _ _ c _ htx =>
    have hpay : env.payment = 0 := by
      obtain ⟨_, hpay, -⟩ := bind_eq_ok.mp htx
      exact (require_eq_ok.mp hpay).resolve_left (by simp [Call.payable])
    have hcalled : Ledger.Called env w.contract.ledger c.ledger :=
      (Contract.continue_spec h hpay).of_ok htx
    refine ⟨fun hop => ?_, fun hop => ?_⟩
    · -- the machine stands still
      have hticks := (ticks_of_reaches h.accounted.consistent.sound hcalled.reaches).2
      have heq : c.ledger = w.contract.ledger := Ticked.chain_eq hticks hop
      exact (congrArg Ledger.globalOpCheckpoint heq).trans hop
    · exact work_lt_of_reaches h.accounted.consistent.sound
        (hcalled.progress hgas (h.onTrack.tick_ne_none h.accounted hop))

/-- **Enough such calls finish the operation.** -/
theorem Continues.finish {calls : ℕ → World} (h : (calls 0).contract.ledger.InOrder)
    (hcalls : ∀ k < (calls 0).contract.ledger.work, Continues (calls k) (calls (k + 1))) :
    (calls (calls 0).contract.ledger.work).contract.ledger.globalOpCheckpoint = .none := by
  have hrun : ∀ k ≤ (calls 0).contract.ledger.work, (calls k).contract.ledger.InOrder ∧
      ((calls k).contract.ledger.globalOpCheckpoint = .none ∨
        (calls k).contract.ledger.work + k ≤ (calls 0).contract.ledger.work) := by
    intro k
    induction k with
    | zero => exact fun _ => ⟨h, .inr le_rfl⟩
    | succ k ih =>
      intro hk
      obtain ⟨hk', hwork⟩ := ih (Nat.le_of_succ_le hk)
      obtain ⟨hnext, hidle, hbusy⟩ := (hcalls k hk).work_lt hk'
      refine ⟨hnext, ?_⟩
      by_cases hop : (calls k).contract.ledger.globalOpCheckpoint = .none
      · exact .inl (hidle hop)
      · have := hwork.resolve_left hop
        have := hbusy hop
        exact .inr (by omega)
  by_contra hop
  have hle := (hrun _ le_rfl).2.resolve_left hop
  have hpos := GlobalOpCheckpoint.work_pos hop
    (calls (calls 0).contract.ledger.work).contract.ledger.numUsers
    (calls (calls 0).contract.ledger.work).contract.ledger.cumulatedRewards
  simp only [Ledger.work] at hle hpos
  omega

/-! ### Changes of the cap -/

theorem Operation.call_inj {op op' : Operation} (h : op.call = op'.call) : op = op' := by
  cases op <;> cases op' <;> cases h <;> rfl

/-- A call that starts an operation opens it. -/
theorem Ledger.Act.opened_of_call {s s' : Ledger} {env : Env} {call : Call} (op : Operation)
    (ha : s.Act (.transaction env call) s') (hcall : call = op.call) :
    s.globalOpCheckpoint = .none ∧ ∃ s₀ orc, s.Opened op s₀ orc ∧ s' = s₀.withOp orc := by
  cases ha with
  | operated _ hop _ hopened =>
    rw [Operation.call_inj hcall] at hopened
    exact ⟨hop, _, _, hopened, rfl⟩
  | kept hadmin =>
    rw [hcall] at hadmin
    cases op <;> cases hadmin
  | _ => cases op <;> cases hcall

/-- `Pending w₁ w`: from `w₁` an operation in progress has led to `w`. Between its transactions
anything may happen that `KeepsNewCap` allows. -/
inductive Pending (w₁ : World) : World → Prop
  | start : Pending w₁ w₁
  | step {w w' : World} {e : Event} (h : Pending w₁ w)
      (hop : w.contract.ledger.globalOpCheckpoint ≠ .none) (he : KeepsNewCap w e)
      (hs : Step w e w') : Pending w₁ w'

/-- What is promised of a change to `newTotalCap` that has led to `w₁`. When it is over, the new cap
is stored and filled. It can always go on, unless a call visits too many funds, and calls that go on
finish it. -/
structure EndsInCap (w₁ : World) (newTotalCap : ℕ) : Prop where
  reached : ∀ w, Pending w₁ w → w.contract.ledger.globalOpCheckpoint = .none →
    w.contract.ledger.totalDelegationCap = newTotalCap ∧
      w.contract.ledger.validateDelegationCapInvariant = .ok ()
  goesOn : ∀ w, Pending w₁ w → ∀ env p, env.payment = 0 →
    w.contract.transaction env .continueGlobalOperation = .error p →
    ∃ i, FundStore.IsCapacity (env.gasLow i) p
  finishes : ∀ w, Pending w₁ w → ∃ n, ∀ calls : ℕ → World, calls 0 = w →
    (∀ k < n, Continues (calls k) (calls (k + 1))) →
    (calls n).contract.ledger.globalOpCheckpoint = .none

theorem Pending.inOrder {w₁ w : World} (h : Pending w₁ w) (h₁ : w₁.contract.ledger.InOrder) :
    w.contract.ledger.InOrder := by
  induction h with
  | start => exact h₁
  | step _ _ he hs ih => exact hs.inOrder ih he

theorem Pending.headsFor {w₁ w : World} {newTotalCap : ℕ} (h : Pending w₁ w)
    (h₁ : w₁.contract.ledger.InOrder) (hheads : w₁.contract.ledger.HeadsFor newTotalCap) :
    w.contract.ledger.HeadsFor newTotalCap := by
  induction h with
  | start => exact hheads
  | @step w w' e hpending hop he hs ih =>
    have hin := hpending.inOrder h₁
    have hc := hin.accounted.consistent
    have hdust := e.cleansDust_of_ordinary he.1
    obtain ⟨s₁, ha, hticks⟩ := hs.acts hc.sound hc.dust (hc.userTotal_zero rfl)
    exact (ih.act ha hdust hop).ticks (hc.act ha)
      (hin.onTrack.act hc hin.accounted.oneSided ha hdust he.2) hticks

/-- **A call that does not drop the new cap ends in it.** -/
theorem endsInCap_of_inOrder {w w₁ : World} {env : Env} {newTotalCap : ℕ}
    (h : w.contract.ledger.InOrder)
    (hcall : Step w (.transaction env (.modifyTotalDelegationCap newTotalCap)) w₁)
    (hkeeps : ¬ w.contract.ledger.DropsNewCap
      (.transaction env (.modifyTotalDelegationCap newTotalCap))) : EndsInCap w₁ newTotalCap := by
  have h₁ := hcall.inOrder h ⟨rfl, hkeeps⟩
  have hc := h.accounted.consistent
  have hheads : w₁.contract.ledger.HeadsFor newTotalCap := by
    obtain ⟨s₁, ha, hticks⟩ := hcall.acts hc.sound hc.dust (hc.userTotal_zero rfl)
    have hon₁ := h.onTrack.act hc h.accounted.oneSided ha rfl hkeeps
    obtain ⟨hop, s₀, orc, hopened, rfl⟩ :=
      ha.opened_of_call (.modifyTotalDelegationCap newTotalCap) rfl
    exact (hopened.headsFor h.onTrack h.accounted.oneSided hop hkeeps).ticks (hc.act ha) hon₁ hticks
  refine ⟨fun w' hp hop => ?_, fun w' hp env' p hpay hfail =>
    (Contract.continue_spec (hp.inOrder h₁) hpay).of_error hfail, fun w' hp => ?_⟩
  · rcases hp.headsFor h₁ hheads with hnew | ⟨-, hcap, hinv⟩
    · rw [hop] at hnew
      cases hnew
    · exact ⟨hcap, Ledger.validateDelegationCapInvariant_eq_ok.mpr hinv⟩
  · refine ⟨w'.contract.ledger.work, fun calls hstart hcalls => ?_⟩
    subst hstart
    exact Continues.finish (hp.inOrder h₁) hcalls

/-- A call that drops the new cap is over at once, and the old cap is stored. -/
theorem cap_of_dropsNewCap {w w₁ : World} {env : Env} {newTotalCap : ℕ}
    (hc : w.contract.ledger.Consistent)
    (hcall : Step w (.transaction env (.modifyTotalDelegationCap newTotalCap)) w₁)
    (hdrops : w.contract.ledger.DropsNewCap
      (.transaction env (.modifyTotalDelegationCap newTotalCap))) :
    w₁.contract.ledger.globalOpCheckpoint = .none ∧
      w₁.contract.ledger.totalDelegationCap ≠ newTotalCap := by
  obtain ⟨hboot, hne, _, heq⟩ := hdrops
  have hnew : newTotalCap = w.contract.ledger.maxAvailable := by
    injection heq with _ heq
    injection heq
  obtain ⟨s₁, ha, hticks⟩ := hcall.acts hc.sound hc.dust (hc.userTotal_zero rfl)
  obtain ⟨-, s₀, orc, hopened, rfl⟩ :=
    ha.opened_of_call (.modifyTotalDelegationCap newTotalCap) rfl
  cases hopened with
  | capStored _ hlt => omega
  | capKept hregular =>
    rw [hregular] at hboot
    cases hboot
  | capChange hprevious _ hplan =>
    rw [if_pos hboot] at hprevious
    cases hplan <;> omega
  | bootstrapEnded =>
    rw [Ticked.chain_eq hticks rfl]
    exact ⟨rfl, hne.symm⟩

/-- **A change of the cap ends in the new cap**, in runs that have dropped none, if and only if the
call does not drop it. -/
theorem endsInCap_iff {w w₁ : World} {env : Env} {newTotalCap : ℕ}
    (h : Reachable KeepsNewCap w)
    (hcall : Step w (.transaction env (.modifyTotalDelegationCap newTotalCap)) w₁) :
    EndsInCap w₁ newTotalCap ↔ ¬ w.contract.ledger.DropsNewCap
      (.transaction env (.modifyTotalDelegationCap newTotalCap)) := by
  refine ⟨fun hends hdrops => ?_, endsInCap_of_inOrder h.inOrder hcall⟩
  obtain ⟨hop, hcap⟩ := cap_of_dropsNewCap h.inOrder.accounted.consistent hcall hdrops
  exact hcap (hends.reached w₁ .start hop).1

/-- A cut of the cap from 100 to 50 out of bootstrap mode, with 60 staked, which is interrupted
after the first user. -/
theorem endsInCap_iff_cut :
    ∃ w₁ : World, w₁.contract.ledger.globalOpCheckpoint.newCap = some 50 ∧
      w₁.contract.ledger.totalDelegationCap = 100 ∧ EndsInCap w₁ 50 := by
  let events : List Event := [.transaction { Env.plain 1 0 9 with payment := 40 } .stake,
    .transaction { Env.plain 7 0 9 with payment := 20 } .stake]
  let env : Env := { Env.plain 1 2 9 with gasLow := fun _ k => decide (k = 1) }
  have hrun : ((World.deploy 1 0 2 1000 0 9 1 100).bind (·.run events)).bind (fun w =>
      (w.after (.transaction env (.modifyTotalDelegationCap 50))).map fun w₁ =>
        (w₁.contract.ledger.globalOpCheckpoint.newCap,
          [w₁.contract.ledger.totalDelegationCap, w.contract.ledger.maxAvailable])) =
      some (some 50, [100, 60]) := by
    decide +kernel
  obtain ⟨w, hw, hcall⟩ := Option.bind_eq_some_iff.mp hrun
  obtain ⟨w₁, hw₁, hobs⟩ := Option.map_eq_some_iff.mp hcall
  simp only [Prod.mk.injEq, List.cons.injEq, and_true] at hobs
  obtain ⟨hnew, hcap, hmax⟩ := hobs
  have hreach : Reachable KeepsNewCap w := by
    refine .run (fun _ h => World.initial_deploy h) (fun e he _ => ?_) hw
    simp only [events, List.mem_cons, List.not_mem_nil, or_false] at he
    rcases he with rfl | rfl <;> refine ⟨rfl, ?_⟩ <;> rintro ⟨-, -, _, heq⟩ <;> cases heq
  refine ⟨w₁, hnew, hcap, (endsInCap_iff hreach (World.step_after hw₁)).mpr ?_⟩
  rintro ⟨-, -, _, heq⟩
  rw [hmax] at heq
  cases heq

/-- With a cap of 100 and 60 staked, the change to 60 is completed and the cap is still 100. -/
theorem endsInCap_of_maxAvailable :
    ∃ (w w₁ : World) (env : Env), Reachable (fun _ e => e.ordinary = true) w ∧
      Step w (.transaction env (.modifyTotalDelegationCap 60)) w₁ ∧
      w₁.contract.ledger.globalOpCheckpoint = .none ∧
      w₁.contract.ledger.totalDelegationCap = 100 ∧
      w₁.contract.ledger.validateDelegationCapInvariant ≠ .ok () := by
  let events : List Event := [.transaction { Env.plain 1 0 9 with payment := 60 } .stake]
  have hrun : ((World.deploy 1 0 2 1000 0 9 1 100).bind (·.run events)).bind (fun w =>
      (w.after (.transaction (.plain 1 2 9) (.modifyTotalDelegationCap 60))).map fun w₁ =>
        (w₁.contract.ledger.globalOpCheckpoint, w₁.contract.ledger.totalDelegationCap,
          w₁.contract.ledger.validateDelegationCapInvariant.toOption)) =
      some (.none, 100, none) := by
    decide +kernel
  obtain ⟨w, hw, hcall⟩ := Option.bind_eq_some_iff.mp hrun
  obtain ⟨w₁, hw₁, hobs⟩ := Option.map_eq_some_iff.mp hcall
  simp only [Prod.mk.injEq] at hobs
  obtain ⟨hop, hcap, hinv⟩ := hobs
  have hreach : Reachable (fun _ e => e.ordinary = true) w := by
    refine .run (fun _ h => World.initial_deploy h) (fun e he _ => ?_) hw
    simp only [events, List.mem_cons, List.not_mem_nil, or_false] at he
    rw [he]
    rfl
  refine ⟨w, w₁, _, hreach, World.step_after hw₁, hop, hcap, fun hok => ?_⟩
  rw [hok] at hinv
  cases hinv

end Delegation
