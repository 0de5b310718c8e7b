import Delegation.Latest.Consistent

/-!
# Waiting and unstaked funds, and the cap

Waiting funds stand for a demand that exceeds the cap and unstaked ones for a cap that exceeds the
demand, and the contract never has both. Every path that creates either ends by replacing the one by
the other, and an operation creates neither; so the rule is about `Rebalanced`, and about the totals
that everything else leaves or makes smaller.

The cap invariant needs both halves: outside bootstrap mode a replacement keeps the sum of active
and unstaked funds, and in bootstrap mode it leaves nothing unstaked and fills the cap at most.
-/

namespace Delegation

open Outcome FundStore Relation

namespace FundStore

variable {intact : FundType → Prop} {s s' : FundStore}

/-- A type that no change brings in does not grow. -/
theorem Relabelled.typeTotal_le {R : ℕ → FundDescription → FundDescription → Prop} {t : FundType}
    (h : Relabelled R s s') (hs : Sound intact s) (hs' : Sound intact s')
    (hR : ∀ u d d', R u d d' → d'.fundType ≠ t) : s'.typeTotal t ≤ s.typeTotal t := by
  rw [hs.typeTotal_eq_holding, hs'.typeTotal_eq_holding]
  exact h.holding_le fun u d d' hd ht => absurd (by simpa using ht) (hR u d d' hd)

/-- The cap bounds the active and the unstaked funds together. -/
theorem Sound.active_add_unStaked (h : Sound intact s) :
    s.typeTotal .active + s.typeTotal .unStaked =
      s.holding fun _ d => d.fundType = .active || d.fundType = .unStaked := by
  rw [h.typeTotal_eq_holding, h.typeTotal_eq_holding, holding, holding, holding,
    ← Finset.sum_add_distrib]
  have hone : ∀ (t : FundType) (x : ℕ), ((if decide (t = .active) then x else 0) +
      if decide (t = .unStaked) then x else 0) =
        if (decide (t = .active) || decide (t = .unStaked)) then x else 0 := by
    intro t x
    cases t <;> simp
  exact Finset.sum_congr rfl fun id _ => hone _ _

end FundStore

namespace Ledger

variable {s s' : Ledger} {env : Env} {e : Event} {nonce : UInt64}

/-! ### Waiting and unstaked funds -/

/-- There are not both waiting and unstaked funds, and neither in bootstrap mode. -/
structure OneSided (s : Ledger) : Prop where
  or_zero : s.funds.typeTotal .waiting = 0 ∨ s.funds.typeTotal .unStaked = 0
  bootstrap : s.bootstrapMode = true →
    s.funds.typeTotal .waiting = 0 ∧ s.funds.typeTotal .unStaked = 0

/-- What brings in neither keeps the rule. -/
theorem OneSided.of_le (h : s.OneSided)
    (hwaiting : s'.funds.typeTotal .waiting ≤ s.funds.typeTotal .waiting)
    (hunstaked : s'.funds.typeTotal .unStaked ≤ s.funds.typeTotal .unStaked)
    (hboot : s'.bootstrapMode = true → s.bootstrapMode = true) : s'.OneSided := by
  refine ⟨?_, fun hb => ?_⟩
  · rcases h.or_zero with h0 | h0
    · exact .inl (by omega)
    · exact .inr (by omega)
  · obtain ⟨h₁, h₂⟩ := h.bootstrap (hboot hb)
    exact ⟨by omega, by omega⟩

theorem OneSided.of_funds_eq (h : s.OneSided) (hfunds : s'.funds = s.funds)
    (hboot : s'.bootstrapMode = true → s.bootstrapMode = true) : s'.OneSided :=
  h.of_le (by rw [hfunds]) (by rw [hfunds]) hboot

/-- **A replacement leaves one side only**, whatever there was before. -/
theorem Rebalanced.oneSided {deferred activated : ℕ → ℕ} {toDeferred toActive : ℕ}
    (h : Rebalanced s s' deferred activated toDeferred toActive) : s'.OneSided := by
  have hwaiting := h.typeTotal .waiting
  have hunstaked := h.typeTotal .unStaked
  simp only [reduceCtorEq, if_true, if_false, add_zero] at hwaiting hunstaked
  cases hb : s.bootstrapMode with
  | false =>
    obtain ⟨hb', hdeferred, hactive⟩ := h.regular hb
    refine ⟨by omega, fun hboot => ?_⟩
    rw [hb'] at hboot
    cases hboot
  | true =>
    obtain ⟨hdeferred, -, hfill, -⟩ := h.bootstrap hb
    refine ⟨.inr (by omega), fun hboot => ?_⟩
    have := hfill hboot
    exact ⟨by omega, by omega⟩

/-- An act that does not bring in waiting or unstaked funds. -/
theorem UnStaked.oneSided {amount : ℕ} (h : s.UnStaked env amount s') (hone : s.OneSided) :
    s'.OneSided := by
  cases h with
  | fromWaiting _ _ hsw =>
    have hwaiting := hsw.shift.typeTotal .waiting
    have hunstaked := hsw.shift.typeTotal .unStaked
    simp only [reduceCtorEq, if_true, if_false, add_zero] at hwaiting hunstaked
    exact hone.of_le (by simp only; omega) hunstaked.le id
  | fromActive _ _ _ _ _ _ _ _ _ _ hre => exact hre.oneSided

theorem UnBonded.typeTotal_eq {paid : ℕ} (h : s.UnBonded env s' paid) {t : FundType}
    (ht : t ≠ .deferredPayment) (ht' : t ≠ .withdrawOnly) :
    s'.funds.typeTotal t = s.funds.typeTotal t := by
  obtain ⟨-, hsw, -, -, hpaid, -⟩ := h
  have h₁ := hsw.shift.typeTotal t
  have h₂ := hpaid.typeTotal t
  simp only [ht, ht', if_false, add_zero] at h₁ h₂
  exact h₂.trans h₁

theorem WaitingCleaned.typeTotal_le {dustLimit : ℕ} (h : s.WaitingCleaned env dustLimit s')
    (hs : s.FundsSound) {t : FundType} (ht : t ≠ .withdrawOnly) :
    s'.funds.typeTotal t ≤ s.funds.typeTotal t := by
  cases h with
  | swept _ _ _ hsound hsw =>
    refine hsw.relabelled.typeTotal_le hs hsound fun _ _ d' ⟨_, hd'⟩ => ?_
    rw [hd']
    exact ht.symm
  | cleared _ _ _ hfunds =>
    rcases hfunds with rfl | rfl
    · exact le_rfl
    · simp [typeTotal, clearWithdrawOnlyEnds, setTypeList, ht]

theorem OneSided.act (hs : s.FundsSound) (h : s.OneSided) (ha : s.Act e s') : s'.OneSided := by
  cases ha with
  | staked h' =>
    obtain ⟨-, -, -, hre⟩ := h'
    exact hre.oneSided
  | unStaked _ h' => exact h'.oneSided h
  | activeCleaned _ h' =>
    obtain ⟨-, -, -, -, hre⟩ := h'
    exact hre.oneSided
  | waitingCleaned _ h' =>
    refine h.of_le (h'.typeTotal_le hs (by decide)) (h'.typeTotal_le hs (by decide)) fun hb => ?_
    cases h' <;> exact hb
  | unBonded _ h' =>
    refine h.of_le (h'.typeTotal_eq (by decide) (by decide)).le
      (h'.typeTotal_eq (by decide) (by decide)).le fun hb => ?_
    obtain ⟨-, -, -, -, -, -⟩ := h'
    exact hb
  | claimed _ h' =>
    obtain ⟨-, -, -, -⟩ := h'
    exact h.of_funds_eq rfl id
  | kept _ h' =>
    refine h.of_funds_eq ?_ fun hb => ?_
    · rw [h'.frame]
      rfl
    · rw [h'.frame] at hb
      exact hb
  | operated _ _ _ hopened =>
    -- an operation may end bootstrap mode, but does not begin it
    refine h.of_funds_eq hopened.funds fun hb => ?_
    cases hopened <;> first | exact hb | cases hb
  | answered | received | rewarded | continued => exact h.of_funds_eq rfl id

/-- An operation brings in neither waiting nor unstaked funds. -/
theorem OneSided.ticked (h : s.OneSided) (ht : Ticked nonce s s') : s'.OneSided := by
  cases ht with
  | activated _ _ hsw =>
    have hwaiting := hsw.shift.typeTotal .waiting
    have hunstaked := hsw.shift.typeTotal .unStaked
    simp only [reduceCtorEq, if_true, if_false, add_zero] at hwaiting hunstaked
    exact h.of_le (Nat.le_of_add_right_le hwaiting.le) hunstaked.le id
  | unstakedDeferred _ _ hsw =>
    have hwaiting := hsw.shift.typeTotal .waiting
    have hunstaked := hsw.shift.typeTotal .unStaked
    simp only [reduceCtorEq, if_true, if_false, add_zero] at hwaiting hunstaked
    exact h.of_le hwaiting.le (Nat.le_of_add_right_le hunstaked.le) id
  | activeDeferred _ _ hsw =>
    have hwaiting := hsw.shift.typeTotal .waiting
    have hunstaked := hsw.shift.typeTotal .unStaked
    simp only [reduceCtorEq, if_false, add_zero] at hwaiting hunstaked
    exact h.of_le hwaiting.le hunstaked.le id
  | _ => exact h.of_funds_eq rfl id

theorem oneSided_of_initial {w : World} (h : Initial w) : w.contract.ledger.OneSided := by
  cases h with
  | init h =>
    obtain ⟨_, -, h⟩ := bind_eq_ok.mp h
    obtain ⟨_, -, h⟩ := bind_eq_ok.mp h
    cases h
    exact ⟨.inl rfl, fun _ => ⟨rfl, rfl⟩⟩

end Ledger

open Ledger

/-- **Waiting and unstaked funds never coexist**, and in bootstrap mode there are neither: in every
reachable state, that is also between the calls of an operation. -/
theorem waiting_or_unStaked_eq_zero {w : World} (h : Reachable (fun _ _ => True) w) :
    (w.contract.ledger.userStakeOfType 0 .waiting = 0 ∨
      w.contract.ledger.userStakeOfType 0 .unStaked = 0) ∧
    (w.contract.ledger.bootstrapMode = true →
      w.contract.ledger.userStakeOfType 0 .waiting = 0 ∧
        w.contract.ledger.userStakeOfType 0 .unStaked = 0) := by
  have hone := (h.ledger_invariant (J := OneSided) (fun _ => oneSided_of_initial)
    (fun _ _ _ hc hone _ ha => hone.act hc.sound ha) fun _ _ _ _ hone ht => hone.ticked ht).2
  exact ⟨hone.or_zero, hone.bootstrap⟩

/-- A cap of 10 is oversubscribed by 5. -/
theorem waiting_or_unStaked_eq_zero_waiting :
    ∃ w : World, w.contract.ledger.userStakeOfType 0 .waiting = 5 ∧
      w.contract.ledger.userStakeOfType 0 .unStaked = 0 := by
  have hrun : ((World.deploy 1 0 2 0 0 9 1 10).bind
      (·.run [.transaction { Env.plain 7 0 9 with payment := 15 } .stake])).map (fun w =>
        w.contract.ledger.userStakeOfType 0 .waiting) = some 5 := by
    decide +kernel
  obtain ⟨w, hw, hwaiting⟩ := Option.map_eq_some_iff.mp hrun
  have hreach : Reachable (fun _ _ => True) w :=
    .run (fun _ h => World.initial_deploy h) (fun _ _ _ => trivial) hw
  exact ⟨w, hwaiting, (waiting_or_unStaked_eq_zero hreach).1.resolve_left (by omega)⟩

/-! ### The cap -/

namespace Ledger

variable {s s' : Ledger} {env : Env}

/-- What `validateDelegationCapInvariant` asks for, between calls that keep it. -/
structure Capped (s : Ledger) : Prop where
  sound : s.FundsSound
  cap : s.CapInvariant
  idle : s.globalOpCheckpoint = .none
  oneSided : s.bootstrapMode = true →
    s.funds.typeTotal .waiting = 0 ∧ s.funds.typeTotal .unStaked = 0

/-- A call of a delegator, or a cleanup of active dust from a valid checkpoint. -/
inductive UserCall (s : Ledger) : Ledger → Prop
  | stake {env : Env} {s' : Ledger} (h : (s.credit env.payment).stake env = .ok s') :
      UserCall s s'
  | unStake {env : Env} {amount : ℕ} {s' : Ledger} (h : s.unStake env amount = .ok s') :
      UserCall s s'
  | unBond {env : Env} {paid : ℕ} {s' : Ledger} (h : s.unBond env = .ok (s', paid)) :
      UserCall s s'
  | claimRewards {env : Env} {s' : Ledger} (h : s.claimRewards env = .ok s') : UserCall s s'
  | dustCleanupActive {env : Env} {dustLimit : ℕ} {s' : Ledger}
      (hat : s.DustAt .active (some .active)) (h : s.dustCleanupActive env dustLimit = .ok s') :
      UserCall s s'

/-- **A replacement restores the cap invariant**, from active and unstaked funds that add up to the
cap, or in bootstrap mode from any. -/
theorem Rebalanced.capInvariant {deferred activated : ℕ → ℕ} {toDeferred toActive : ℕ}
    (h : Rebalanced s s' deferred activated toDeferred toActive)
    (hsum : s.bootstrapMode = false →
      s.funds.typeTotal .active + s.funds.typeTotal .unStaked = s.totalDelegationCap) :
    s'.CapInvariant := by
  have hactive := h.typeTotal .active
  have hunstaked := h.typeTotal .unStaked
  simp only [reduceCtorEq, if_true, if_false, add_zero] at hactive hunstaked
  have hcap : s'.totalDelegationCap = s.totalDelegationCap := by rw [h.frame]
  cases hb : s.bootstrapMode with
  | false =>
    obtain ⟨hb', hdeferred, htoActive⟩ := h.regular hb
    have := hsum hb
    simp only [CapInvariant, hb', hcap, Bool.false_eq_true, if_false]
    omega
  | true =>
    obtain ⟨hdeferred, hle, -, hends⟩ := h.bootstrap hb
    cases hb' : s'.bootstrapMode with
    | false =>
      have := hends.mp hb'
      simp only [CapInvariant, hb', hcap, Bool.false_eq_true, if_false]
      omega
    | true =>
      -- the cap is not filled, or bootstrap mode would be over
      have hne : s.funds.typeTotal .active + toActive ≠ s.totalDelegationCap := fun heq => by
        rw [hends.mpr heq] at hb'
        cases hb'
      simp only [CapInvariant, hb', hcap, if_true]
      omega

/-- The rule of the cap, when nothing that it looks at has changed. -/
theorem Capped.of_eq (h : s.Capped) (hs' : s'.FundsSound)
    (hactive : s'.funds.typeTotal .active = s.funds.typeTotal .active)
    (hunstaked : s'.funds.typeTotal .unStaked = s.funds.typeTotal .unStaked)
    (hwaiting : s'.funds.typeTotal .waiting ≤ s.funds.typeTotal .waiting)
    (hboot : s'.bootstrapMode = s.bootstrapMode) (hord : Ordinary s s') : s'.Capped where
  sound := hs'
  cap := by
    have hcap := h.cap
    simp only [CapInvariant, hboot, hactive, hunstaked, hord.totalDelegationCap] at hcap ⊢
    exact hcap
  idle := hord.globalOpCheckpoint.trans h.idle
  oneSided hb := by
    obtain ⟨h₁, h₂⟩ := h.oneSided (hboot ▸ hb)
    exact ⟨by omega, hunstaked.trans h₂⟩

theorem CapInvariant.sum_eq (h : s.CapInvariant) (hb : s.bootstrapMode = false) :
    s.funds.typeTotal .active + s.funds.typeTotal .unStaked = s.totalDelegationCap := by
  simpa only [CapInvariant, hb, Bool.false_eq_true, if_false] using h

/-- A replacement on the cap, from a state whose active and unstaked funds are those of `s`. -/
theorem Capped.rebalanced {mid : Ledger} {deferred activated : ℕ → ℕ} {toDeferred toActive : ℕ}
    (h : s.Capped) (hord : Ordinary s mid) (hboot : mid.bootstrapMode = s.bootstrapMode)
    (hsum : mid.funds.typeTotal .active + mid.funds.typeTotal .unStaked =
      s.funds.typeTotal .active + s.funds.typeTotal .unStaked)
    (hre : Rebalanced mid s' deferred activated toDeferred toActive) : s'.Capped where
  sound := hre.sound
  cap := hre.capInvariant fun hb => by
    rw [hsum, hord.totalDelegationCap]
    exact h.cap.sum_eq (hboot ▸ hb)
  idle := (hre.ordinary.globalOpCheckpoint.trans hord.globalOpCheckpoint).trans h.idle
  oneSided := hre.oneSided.bootstrap

/-- The stored id is a valid start at most of one list. -/
theorem DustAt.eq_own (hs : s.FundsSound) {t : FundType} (hat : s.DustAt .active (some .active))
    (hat' : s.DustAt .active (some t)) : t = .active := by
  obtain ⟨lay, hl, -⟩ := hs
  cases hat with
  | start h0 =>
    cases hat' with
    | start => rfl
    | item _ hhas => exact absurd h0 (hl.ne_zero hhas.1)
  | item _ hhas =>
    cases hat' with
    | start => rfl
    | item _ hhas' => exact hhas'.2.1.symm.trans hhas.2.1

theorem DustAt.of_eq {own : FundType} {at' : Option FundType} (h : s.DustAt own at')
    (hcp : s'.dustCleanupCheckpoint = s.dustCleanupCheckpoint) (hfunds : s'.funds = s.funds) :
    s'.DustAt own at' := by
  cases h with
  | start h0 => exact .start (hcp.trans h0)
  | item ht hhas => exact .item ht (by rw [hfunds, hcp]; exact hhas)
  | cleared h0 hcell => exact .cleared (hcp ▸ h0) (by rw [hfunds, hcp]; exact hcell)

theorem Capped.credit (h : s.Capped) (egld : ℕ) : (s.credit egld).Capped :=
  ⟨h.sound, h.cap, h.idle, h.oneSided⟩

/-- A sweep of the active list unstakes what it takes. -/
theorem ActiveSwept.active_add_unStaked {dustLimit : ℕ} (hs : s.FundsSound)
    (hat : s.DustAt .active (some .active)) (h : s.ActiveSwept dustLimit s') :
    s'.funds.typeTotal .active + s'.funds.typeTotal .unStaked =
      s.funds.typeTotal .active + s.funds.typeTotal .unStaked := by
  rcases h.swept with ⟨t, hat', hswept, -⟩ | ⟨-, hfunds, -⟩
  · rw [FundStore.Sound.active_add_unStaked h.sound, FundStore.Sound.active_add_unStaked hs]
    refine hswept.relabelled.holding_eq fun v d d' ⟨hd, hd'⟩ => ?_
    rw [hd', hd, hat.eq_own hs hat']
    rfl
  · rw [hfunds]

/-- **Every call of a delegator keeps the cap invariant.** -/
theorem Capped.userCall (h : s.Capped) (hcall : s.UserCall s') : s'.Capped := by
  cases hcall with
  | @stake env _ hok =>
    have hcredit := h.credit env.payment
    obtain ⟨-, hdep, hcap, hre⟩ := (stake_spec hcredit.sound env).of_ok hok
    have hactive := hdep.typeTotal hcredit.sound .active
    have hunstaked := hdep.typeTotal hcredit.sound .unStaked
    simp only [reduceCtorEq, if_false, add_zero] at hactive hunstaked
    refine hcredit.rebalanced hdep.ordinary ?_ (by rw [hactive, hunstaked]) hre
    rw [hdep.frame]
  | @unStake env amount _ hok =>
    have hun := (unStake_spec h.sound env amount).of_ok hok
    cases hun with
    | @fromWaiting funds _ _ _ hsw _ =>
      have hactive := hsw.shift.typeTotal .active
      have hunstaked := hsw.shift.typeTotal .unStaked
      have hwaiting := hsw.shift.typeTotal .waiting
      simp only [reduceCtorEq, if_true, if_false, add_zero] at hactive hunstaked hwaiting
      exact h.of_eq hsw.sound hactive hunstaked (Nat.le_of_add_right_le hwaiting.le) rfl
        (ordinary_of_funds s funds)
    | @fromActive funds₁ funds₂ _ _ _ _ _ _ _ _ mid _ _ _ hsw₁ hset hsw₂ _ _ _ _ _ hre =>
      have hord : Ordinary s { mid with funds := funds₂ } :=
        ((ordinary_of_funds s funds₁).trans hset.ordinary).trans (ordinary_of_funds mid funds₂)
      refine h.rebalanced hord ?_ ?_ hre
      · change mid.bootstrapMode = s.bootstrapMode
        rw [hset.frame]
      · have ha₁ := hsw₁.shift.typeTotal .active
        have hu₁ := hsw₁.shift.typeTotal .unStaked
        have ha₂ := hsw₂.shift.typeTotal .active
        have hu₂ := hsw₂.shift.typeTotal .unStaked
        simp only [reduceCtorEq, if_true, if_false, add_zero] at ha₁ hu₁ ha₂ hu₂ ⊢
        omega
  | @unBond env paid _ hok =>
    have hun : s.UnBonded env s' paid := (unBond_spec h.sound env).of_ok hok
    have hord := hun.ordinary
    have htotal := fun t => hun.typeTotal_eq (t := t)
    refine h.of_eq ?_ (htotal .active nofun nofun) (htotal .unStaked nofun nofun)
      (htotal .waiting nofun nofun).le ?_ hord <;> obtain ⟨-, -, -, hsound, -, -⟩ := hun
    · exact hsound
    · rfl
  | @claimRewards env _ hok =>
    obtain ⟨claimed, hclaimed⟩ := (s.claimRewards_spec env).of_ok hok
    have hord := hclaimed.ordinary
    obtain ⟨-, -, -, -⟩ := hclaimed
    exact h.of_eq h.sound rfl rfl le_rfl rfl hord
  | @dustCleanupActive env dustLimit _ hat hok =>
    obtain ⟨-, -, hset, hsw, hre⟩ := (dustCleanupActive_spec h.sound hat env dustLimit).of_ok hok
    rename_i mid swept _ _ _ _
    have hmid : mid.FundsSound := by
      unfold FundsSound
      rw [hset.funds]
      exact h.sound
    have hcp : mid.dustCleanupCheckpoint = s.dustCleanupCheckpoint := by rw [hset.frame]
    refine h.rebalanced (hset.ordinary.trans hsw.ordinary) ?_ ?_ hre
    · rw [hsw.frame, hset.frame]
    · rw [hsw.active_add_unStaked hmid (hat.of_eq hcp hset.funds), hset.funds]

theorem Capped.userCalls (h : s.Capped) (hcalls : ReflTransGen UserCall s s') : s'.Capped := by
  induction hcalls with
  | refl => exact h
  | tail _ hlast ih => exact ih.userCall hlast

end Ledger

/-- **The cap invariant survives all activity of the delegators.** From every state with consistent
fund lists on which `validateDelegationCapInvariant` succeeds and no operation is in progress, it
succeeds again after every sequence of successful calls, and no stake fails on it. -/
theorem capInvariant_of_userCalls {s s' : Ledger} (hs : s.FundsSound)
    (hcap : s.validateDelegationCapInvariant = .ok ()) (hop : s.globalOpCheckpoint = .none)
    (hboot : s.bootstrapMode = true →
      s.funds.typeTotal .waiting = 0 ∧ s.funds.typeTotal .unStaked = 0)
    (hcalls : ReflTransGen UserCall s s') :
    s'.validateDelegationCapInvariant = .ok () ∧
      ∀ env : Env, (s'.credit env.payment).stake env ≠
        .error (.scPanic "delegation cap invariant violated") := by
  have hcapped : s.Capped := ⟨hs, validateDelegationCapInvariant_eq_ok.mp hcap, hop, hboot⟩
  have hcapped' := hcapped.userCalls hcalls
  refine ⟨validateDelegationCapInvariant_eq_ok.mpr hcapped'.cap, fun env herr => ?_⟩
  rcases (stake_spec (hcapped'.credit env.payment).sound env).of_error herr with
    hfails | ⟨-, hnot⟩
  · exact hfails.ne_scPanic (by decide) (by decide) rfl
  · exact hnot (hcapped'.credit env.payment).cap

/-- Two delegators fill a cap of 10, the second one with 5 to spare, and the first one unstakes. -/
theorem capInvariant_of_userCalls_filled :
    ∃ s' : Ledger, s'.bootstrapMode = false ∧ s'.userStakeOfType 0 .waiting = 1 ∧
      s'.validateDelegationCapInvariant = .ok () := by
  let first : Env := { Env.plain 7 0 9 with payment := 8 }
  let second : Env := { Env.plain 8 0 9 with payment := 7 }
  have hrun : (World.deploy 1 0 2 0 0 9 1 10).bind (fun w => do
      let s := w.contract.ledger
      let s₁ ← ((s.credit first.payment).stake first).toOption
      let s₂ ← ((s₁.credit second.payment).stake second).toOption
      let s₃ ← (s₂.unStake (.plain 7 3 9) 4).toOption
      return (s.validateDelegationCapInvariant.toOption, s.globalOpCheckpoint, s₃.bootstrapMode,
        [s.funds.typeTotal .waiting, s.funds.typeTotal .unStaked,
          s₃.userStakeOfType 0 .waiting])) =
      some (some (), .none, false, [0, 0, 1]) := by
    decide +kernel
  obtain ⟨w, hw, hrun⟩ := Option.bind_eq_some_iff.mp hrun
  obtain ⟨s₁, hs₁, hrun⟩ := Option.bind_eq_some_iff.mp hrun
  obtain ⟨s₂, hs₂, hrun⟩ := Option.bind_eq_some_iff.mp hrun
  obtain ⟨s₃, hs₃, hobs⟩ := Option.bind_eq_some_iff.mp hrun
  simp only [Option.pure_def, Option.some.injEq, Prod.mk.injEq, List.cons.injEq, and_true] at hobs
  obtain ⟨hcap, hop, hboot, hwaiting, hunstaked, hleft⟩ := hobs
  have hcalls : ReflTransGen Ledger.UserCall w.contract.ledger s₃ :=
    ((ReflTransGen.single (.stake (toOption_eq_some.mp hs₁))).tail
      (.stake (toOption_eq_some.mp hs₂))).tail (.unStake (toOption_eq_some.mp hs₃))
  have hinv := capInvariant_of_userCalls (World.initial_deploy hw).consistent.sound
    (toOption_eq_some.mp hcap) hop (fun _ => ⟨hwaiting, hunstaked⟩) hcalls
  exact ⟨s₃, hboot, hleft, hinv.1⟩

end Delegation
