import Delegation.Fund.History
import Delegation.Latest.Unbonding

/-!
# The unbonding period

A deferred payment is due when the block in which it was created and the unbonding period add up to
a block that has been reached. The code adds the two as `u64`, which wraps around in the release
build. The sum has two readings then: over the natural numbers (`isDue`), and, when it exceeds
`2 ^ 64`, as a small number that may well have been reached (`wrapsAround`). What
`swap_eligible_deferred_to_withdraw` moves and `eligible_deferred_payment` counts are the items of
both kinds.

So they keep the period exactly when no item of the user is of the second kind (`periodKept_iff`).
-/

namespace Delegation

open Outcome Loop FundStore

/-! ### Due and wrapped around -/

/-- A deferred payment that is due, over the natural numbers. -/
def FundDescription.isDue (nonce blocks : UInt64) : FundDescription → Bool
  | .deferredPayment created => decide (created.toNat + blocks.toNat ≤ nonce.toNat)
  | _ => false

/-- A deferred payment for which the sum of the nonces wraps around to a block that has been
reached. -/
def FundDescription.wrapsAround (nonce blocks : UInt64) : FundDescription → Bool
  | .deferredPayment created => decide (2 ^ 64 ≤ created.toNat + blocks.toNat ∧
      created.toNat + blocks.toNat - 2 ^ 64 ≤ nonce.toNat)
  | _ => false

variable {intact : FundType → Prop} {s s' : FundStore} {lay : Layout} {u : ℕ} {t : FundType}
  {nonce blocks : UInt64} {d : FundDescription}

/-- **The filter of the code** accepts both kinds. -/
theorem isEligible_eq :
    isEligible nonce blocks d = (d.isDue nonce blocks || d.wrapsAround nonce blocks) := by
  cases d with
  | deferredPayment created =>
    have hcreated := created.toNat_lt
    have hblocks := blocks.toNat_lt
    have hnonce := nonce.toNat_lt
    simp only [isEligible, FundDescription.isDue, FundDescription.wrapsAround,
      UInt64.le_iff_toNat_le, UInt64.toNat_add, ← Bool.decide_or, decide_eq_decide]
    omega
  | _ => rfl

/-- No payment is of both kinds. -/
theorem not_isDue_of_wrapsAround (h : d.wrapsAround nonce blocks = true) :
    d.isDue nonce blocks = false := by
  cases d with
  | deferredPayment created =>
    have hnonce := nonce.toNat_lt
    simp only [FundDescription.wrapsAround, decide_eq_true_eq] at h
    simp only [FundDescription.isDue, decide_eq_false_iff_not]
    omega
  | _ => cases h

/-! ### What the loops take -/

/-- Without a maximum and without interruption, a walk takes what the filter accepts. -/
theorem drain_none (sel : ℕ → Bool) (f : Entry → Option FundDescription) (k : ℕ) (q : List Entry) :
    (drain sel f never k none q).kept = q.filter (fun e => !(sel e.userId && (f e).isSome)) ∧
    ((drain sel f never k none q).extracted.map Entry.balance).sum =
      ((q.filter fun e => sel e.userId && (f e).isSome).map Entry.balance).sum := by
  suffices h : ∀ max, max = none →
      (drain sel f never k max q).kept = q.filter (fun e => !(sel e.userId && (f e).isSome)) ∧
      ((drain sel f never k max q).extracted.map Entry.balance).sum =
        ((q.filter fun e => sel e.userId && (f e).isSome).map Entry.balance).sum from h none rfl
  intro max
  refine drain_induct (P := fun _ max q r => max = none →
    r.kept = q.filter (fun e => !(sel e.userId && (f e).isSome)) ∧
    (r.extracted.map Entry.balance).sum =
      ((q.filter fun e => sel e.userId && (f e).isSome).map Entry.balance).sum)
    ?_ ?_ ?_ ?_ ?_ k max q
  · exact fun _ _ _ => ⟨rfl, rfl⟩
  · intro k max e q hsel ih hmax
    simpa [hsel] using ih hmax
  · rintro k max e q _ (hint | hzero) rfl
    · cases hint
    · cases hzero
  · intro k max e q hsel _ hf ih hmax
    simpa [hsel, hf, Drained.visit] using ih hmax
  · rintro k max e q d hsel _ hf ih rfl
    -- without a maximum the whole entry is taken
    simpa [hsel, hf, Drained.visit, takenBalance] using ih rfl

/-- A walk visits selected entries only. -/
theorem drain_visitedUsers_length_le_filter (sel : ℕ → Bool) (f : Entry → Option FundDescription)
    (interrupt : ℕ → Bool) (k : ℕ) (max : Option ℕ) (q : List Entry) :
    (drain sel f interrupt k max q).visitedUsers.length ≤
      (q.filter fun e => sel e.userId).length := by
  refine drain_induct (P := fun _ _ q r => r.visitedUsers.length ≤
    (q.filter fun e => sel e.userId).length) ?_ ?_ ?_ ?_ ?_ k max q
  · exact fun _ _ => le_rfl
  · intro k max e q hsel ih
    rwa [List.filter_cons_of_neg (by simpa using hsel)]
  · exact fun _ _ _ _ _ _ => Nat.zero_le _
  · intro k max e q hsel _ _ ih
    rw [List.filter_cons_of_pos (by simpa using hsel)]
    exact Nat.succ_le_succ ih
  · intro k max e q d hsel _ _ ih
    rw [List.filter_cons_of_pos (by simpa using hsel)]
    exact Nat.succ_le_succ ih

namespace FundStore

/-- The deferred payments of a user that a condition selects, in the order of the queue. -/
def deferredItems (s : FundStore) (u : ℕ) (p : FundDescription → Bool) : List Entry :=
  (s.queue .deferredPayment).filter fun e => e.userId = u && p e.fundDesc

/-- Their balance. -/
def deferredBalance (s : FundStore) (u : ℕ) (p : FundDescription → Bool) : ℕ :=
  ((s.deferredItems u p).map Entry.balance).sum

/-- A holding of one type is read off the queue of the type. -/
theorem Linked.holding_eq_sum (h : Linked intact s lay) {p : ℕ → FundDescription → Bool}
    (hp : ∀ v d, p v d = true → d.fundType = t) :
    s.holding p =
      (((lay.queue s t).filter fun e => p e.userId e.fundDesc).map Entry.balance).sum := by
  have hweigh : ∀ q : List Entry, Entry.weigh p q =
      ((q.filter fun e => p e.userId e.fundDesc).map Entry.balance).sum := fun q => by
    induction q with
    | nil => rfl
    | cons e q ih =>
      rw [Entry.weigh_cons, ih, Entry.weight]
      cases hpe : p e.userId e.fundDesc <;> simp [hpe]
  rw [h.holding_eq, Finset.sum_eq_single_of_mem t (Finset.mem_univ t), hweigh]
  intro t' _ hne
  refine List.sum_eq_zero fun n hn => ?_
  obtain ⟨e, he, rfl⟩ := List.mem_map.mp hn
  obtain ⟨a, ha, rfl⟩ := List.mem_map.mp he
  exact if_neg fun hpe => hne ((h.fundType_eq ha).symm.trans (hp _ _ hpe))

/-- **`eligible_deferred_payment`** counts the eligible items. -/
theorem Sound.eligibleDeferredPayment_eq (h : Sound intact s) (hi : intact .deferredPayment)
    {fuel : ℕ} (hfuel : s.fundMaxId ≤ fuel) : s.eligibleDeferredPayment nonce u blocks fuel =
      .ok (s.deferredBalance u (isEligible nonce blocks)) := by
  rw [h.eligibleDeferredPayment hfuel]
  obtain ⟨lay, hl, -⟩ := h
  rw [due, hl.holding_eq_sum (t := .deferredPayment) fun v d hd =>
    fundType_of_isEligible (Bool.and_eq_true_iff.mp hd).2, ← hl.queue_eq hi]
  rfl

/-- **`swap_eligible_deferred_to_withdraw`** moves the eligible items. -/
theorem Sound.swapEligibleDeferredToWithdraw_eq (h : Sound intact s) (hi : intact .deferredPayment)
    (nonce : UInt64) (u : ℕ) (blocks : UInt64) {fuel : ℕ} (hfuel : s.fundMaxId ≤ fuel) :
    ∃ s', s.swapEligibleDeferredToWithdraw nonce u blocks never fuel =
        .ok (s', s.deferredBalance u (isEligible nonce blocks)) ∧
      s'.queue .deferredPayment = (s.queue .deferredPayment).filter
        (fun e => !(e.userId = u && isEligible nonce blocks e.fundDesc)) ∧
      s'.userTotal u .withdrawOnly =
        s.userTotal u .withdrawOnly + s.deferredBalance u (isEligible nonce blocks) := by
  obtain ⟨lay, hl, hco⟩ := h
  have hsome : ∀ d,
      (eligibleDeferredToWithdraw nonce blocks d).isSome = isEligible nonce blocks d :=
    fun d => by
      rw [Bool.eq_iff_iff, Option.isSome_iff_exists]
      simp only [eligibleDeferredToWithdraw_eq_some, exists_and_left, exists_eq, and_true]
  have hwithdraw : ∀ d d', eligibleDeferredToWithdraw nonce blocks d = some d' →
      d'.fundType = .withdrawOnly := fun d d' hd => by
    rw [(eligibleDeferredToWithdraw_eq_some.mp hd).2]
    rfl
  have hdrain := hl.splitConvertMaxByUser hco hi .forwards none u never fuel
    (g := eligibleDeferredToWithdraw nonce blocks) fun d d' _ hd => by
      rw [hwithdraw d d' hd]
      decide
  have hle := drain_visitedUsers_length_le_filter (fun v => v = u)
    (fun e => eligibleDeferredToWithdraw nonce blocks e.fundDesc) never 0 none
    (lay.queue s .deferredPayment)
  have hlen : ((lay.queue s .deferredPayment).filter fun e => e.userId = u).length ≤ fuel := by
    have hlist :
        ((lay.byType .deferredPayment).filter fun id => (s.fundById id).userId = u).length ≤
          s.fundMaxId := by
      rw [← hco u .deferredPayment]
      exact hl.length_byUser_le _
    rw [Layout.queue, List.filter_map, List.length_map]
    exact hlist.trans hfuel
  obtain ⟨hkept, htaken⟩ := drain_none (fun v => v = u)
    (fun e => eligibleDeferredToWithdraw nonce blocks e.fundDesc) 0 (lay.queue s .deferredPayment)
  obtain ⟨s', lay', hok, hd⟩ := hdrain.1 (hle.trans hlen)
  simp only [SwapDirection.walk, hsome] at hkept htaken hok hd
  simp only [deferredBalance, deferredItems, hl.queue_eq hi]
  -- all that is taken is the user's, and is withdrawable afterwards
  have hall : ∀ e ∈ (drain (fun v => decide (v = u))
      (fun e => eligibleDeferredToWithdraw nonce blocks e.fundDesc) never 0 none
      (lay.queue s .deferredPayment)).extracted, e.userId = u ∧ e.fundType = .withdrawOnly := by
    intro e he
    obtain ⟨hu, -, e', -, hf⟩ := drain_extracted e he
    exact ⟨of_decide_eq_true hu, hwithdraw _ _ hf⟩
  refine ⟨s', ?_, ?_, ?_⟩
  · rw [htaken] at hok
    exact (congrArg (· >>= _) hok).trans rfl
  · rw [hd.linked.queue_eq hi, hd.source]
    exact hkept
  · rw [hd.linked.userTotal_eq_total hd.coherent, hd.target .withdrawOnly (by decide),
      Entry.total_foldl_enqueue, ← hl.userTotal_eq_total hco,
      List.filter_eq_self.mpr fun e he => decide_eq_true (hall e he).2,
      Entry.total_congr fun e he => decide_eq_true (hall e he).1, Entry.total,
      List.filter_eq_self.mpr fun _ _ => rfl, htaken]

/-! ### Keeping the period -/

/-- The deferred payments of the user that the view counts and the swap moves are those that are due
over the natural numbers, and neither of the two fails. -/
structure PeriodKept (s : FundStore) (u : ℕ) (nonce blocks : UInt64) : Prop where
  view : ∀ fuel, s.fundMaxId ≤ fuel → s.eligibleDeferredPayment nonce u blocks fuel =
    .ok (s.deferredBalance u (·.isDue nonce blocks))
  swap : ∀ fuel, s.fundMaxId ≤ fuel →
    ∃ s', s.swapEligibleDeferredToWithdraw nonce u blocks never fuel =
        .ok (s', s.deferredBalance u (·.isDue nonce blocks)) ∧
      s'.queue .deferredPayment = (s.queue .deferredPayment).filter
        (fun e => !(e.userId = u && e.fundDesc.isDue nonce blocks)) ∧
      s'.userTotal u .withdrawOnly =
        s.userTotal u .withdrawOnly + s.deferredBalance u (·.isDue nonce blocks)

/-- What is eligible is what is due and what has wrapped around. -/
theorem deferredBalance_isEligible (s : FundStore) (u : ℕ) (nonce blocks : UInt64) :
    s.deferredBalance u (isEligible nonce blocks) = s.deferredBalance u (·.isDue nonce blocks) +
      s.deferredBalance u (·.wrapsAround nonce blocks) := by
  simp only [deferredBalance, deferredItems]
  induction s.queue .deferredPayment with
  | nil => rfl
  | cons e q ih =>
    simp only [List.filter_cons, isEligible_eq] at ih ⊢
    by_cases hu : e.userId = u
    · cases hwrap : e.fundDesc.wrapsAround nonce blocks with
      | true =>
        rw [not_isDue_of_wrapsAround hwrap]
        simp only [hu, decide_true, Bool.and_true, Bool.or_true, if_true, Bool.and_false,
          Bool.false_eq_true, if_false, List.map_cons, List.sum_cons]
        omega
      | false =>
        cases e.fundDesc.isDue nonce blocks <;> simp [hu] <;> omega
    · simpa [hu] using ih

/-- The items of a queue have a balance. -/
theorem Sound.balance_pos (h : Sound intact s) (hi : intact t) {e : Entry} (he : e ∈ s.queue t) :
    0 < e.balance := by
  obtain ⟨lay, hl, -⟩ := h
  rw [hl.queue_eq hi] at he
  obtain ⟨a, ha, rfl⟩ := List.mem_map.mp he
  exact hl.live ha

end FundStore

open FundStore Ledger

/-- **The unbonding period is kept exactly when no deferred payment of the user wraps around**: none
for which the block of its creation and the period add up to `2 ^ 64` or more, and to no more than
`2 ^ 64` plus the present block. -/
theorem periodKept_iff {s : FundStore} (h : FundStore.Sound Relied s) (u : ℕ)
    (nonce blocks : UInt64) : s.PeriodKept u nonce blocks ↔
      ∀ e ∈ s.queue .deferredPayment, e.userId = u → ∀ created,
        e.fundDesc = .deferredPayment created →
        ¬ (2 ^ 64 ≤ created.toNat + blocks.toNat ∧
          created.toNat + blocks.toNat - 2 ^ 64 ≤ nonce.toNat) := by
  constructor
  · intro hkept e he hu created hd hwrap
    -- the view would count the item
    have hview := (h.eligibleDeferredPayment_eq (by decide) le_rfl).symm.trans
      (hkept.view s.fundMaxId le_rfl)
    rw [Except.ok.injEq, deferredBalance_isEligible] at hview
    have hmem : e ∈ s.deferredItems u (·.wrapsAround nonce blocks) := by
      refine List.mem_filter.mpr ⟨he, ?_⟩
      simp only [hu, hd, FundDescription.wrapsAround, hwrap, decide_true, Bool.and_self, and_self]
    have hle : e.balance ≤ s.deferredBalance u (·.wrapsAround nonce blocks) :=
      List.le_sum_of_mem (List.mem_map_of_mem hmem)
    have hpos := h.balance_pos (by decide) he
    omega
  · intro hnone
    have hsame : ∀ e ∈ s.queue .deferredPayment,
        (e.userId = u && isEligible nonce blocks e.fundDesc) =
        (e.userId = u && e.fundDesc.isDue nonce blocks) := by
      intro e he
      by_cases hu : e.userId = u
      · have hwrap : e.fundDesc.wrapsAround nonce blocks = false := by
          cases hd : e.fundDesc with
          | deferredPayment created => exact decide_eq_false (hnone e he hu created hd)
          | _ => rfl
        rw [isEligible_eq, hwrap, Bool.or_false]
      · simp [hu]
    have hitems : s.deferredBalance u (isEligible nonce blocks) =
        s.deferredBalance u (·.isDue nonce blocks) := by
      simp only [deferredBalance, deferredItems, List.filter_congr hsame]
    constructor
    · intro fuel hfuel
      rw [h.eligibleDeferredPayment_eq (by decide) hfuel, hitems]
    · intro fuel hfuel
      obtain ⟨s', hok, hqueue, htotal⟩ :=
        h.swapEligibleDeferredToWithdraw_eq (by decide) nonce u blocks hfuel
      rw [hitems] at hok htotal
      refine ⟨s', hok, hqueue.trans (List.filter_congr fun e he => ?_), htotal⟩
      rw [hsame e he]

/-- With a period of 9 blocks, of two deferred payments the one of block 2 is due in block 12. -/
theorem periodKept_iff_nine : ∃ w : World, Reachable (fun _ _ => True) w ∧
    w.contract.ledger.funds.queue .deferredPayment =
      [⟨2, .deferredPayment 2, 6⟩, ⟨2, .deferredPayment 8, 3⟩] ∧
    w.contract.ledger.funds.PeriodKept 2 12 9 ∧
    w.contract.ledger.funds.deferredBalance 2 (·.isDue 12 9) = 6 := by
  let events : List Event :=
    [.transaction { Env.plain 7 0 9 with payment := 10 } .stake,
      .transaction (.plain 7 2 9) (.unStake 6), .transaction (.plain 7 8 9) (.unStake 3)]
  have hrun : ((World.deploy 1 0 2 0 0 9 1 100).bind (·.run events)).map (fun w =>
      w.contract.ledger.funds.queue .deferredPayment) =
      some [⟨2, .deferredPayment 2, 6⟩, ⟨2, .deferredPayment 8, 3⟩] := by
    decide +kernel
  obtain ⟨w, hw, hqueue⟩ := Option.map_eq_some_iff.mp hrun
  have hreach : Reachable (fun _ _ => True) w :=
    .run (fun _ h => World.initial_deploy h) (fun _ _ _ => trivial) hw
  refine ⟨w, hreach, hqueue, (periodKept_iff hreach.consistent.sound 2 12 9).mpr ?_, ?_⟩
  · rw [hqueue]
    intro e he _ created hd
    rcases List.mem_pair.mp he with rfl | rfl
    · cases hd
      decide
    · cases hd
      decide
  · rw [deferredBalance, deferredItems, hqueue]
    decide

/-- The owner sets the longest period there is, and the funds that a user unstakes in block 12 can
be withdrawn in block 12: `12 + (2 ^ 64 - 1)` wraps around to 11. -/
theorem periodKept_of_longest : ∃ w : World, Reachable (fun _ _ => True) w ∧
    w.contract.ledger.nBlocksBeforeUnbond.toNat = 2 ^ 64 - 1 ∧
    w.contract.ledger.funds.queue .deferredPayment = [⟨2, .deferredPayment 12, 6⟩] ∧
    ¬ w.contract.ledger.funds.PeriodKept 2 12 w.contract.ledger.nBlocksBeforeUnbond ∧
    (w.contract.ledger.unBond (.plain 7 12 9)).map Prod.snd = .ok 6 := by
  let events : List Event :=
    [.transaction (.plain 1 0 9) (.setNumBlocksBeforeUnBond 18446744073709551615),
      .transaction { Env.plain 7 0 9 with payment := 10 } .stake,
      .transaction (.plain 7 12 9) (.unStake 6)]
  have hrun : ((World.deploy 1 0 2 0 0 9 1 100).bind (·.run events)).map (fun w =>
      let s := w.contract.ledger
      ((s.nBlocksBeforeUnbond.toNat, s.funds.queue .deferredPayment),
        ((s.unBond (.plain 7 12 9)).map Prod.snd).toOption,
        (s.funds.eligibleDeferredPayment 12 2 s.nBlocksBeforeUnbond 9).toOption,
        s.funds.deferredBalance 2 (·.isDue 12 s.nBlocksBeforeUnbond), s.funds.fundMaxId)) =
      some ((18446744073709551615, [⟨2, .deferredPayment 12, 6⟩]), some 6, some 6, 0, 4) := by
    decide +kernel
  obtain ⟨w, hw, hobs⟩ := Option.map_eq_some_iff.mp hrun
  simp only [Prod.mk.injEq, toOption_eq_some] at hobs
  obtain ⟨⟨hblocks, hqueue⟩, hpaid, hview, hdue, hmax⟩ := hobs
  have hreach : Reachable (fun _ _ => True) w :=
    .run (fun _ h => World.initial_deploy h) (fun _ _ _ => trivial) hw
  refine ⟨w, hreach, hblocks.trans (by decide), hqueue, fun hkept => ?_, hpaid⟩
  have hsame := hview.symm.trans (hkept.view 9 (hmax.le.trans (by decide)))
  rw [hdue, Except.ok.injEq] at hsame
  cases hsame

end Delegation
