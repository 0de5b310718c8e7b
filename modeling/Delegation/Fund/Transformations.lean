import Delegation.Fund.Destroy

/-!
# Fund transformations

The model of `user-fund-storage/src/fund_transf_module.rs`, the only functions through which the
contract moves funds between types, and their specifications. All of them are calls of the
converting loops with a filter that accepts every item of the source type, so one specification for
each of the two loops (`Linked.swapByType`, `Linked.swapByUser`) covers them.
-/

namespace Delegation

open Outcome Loop DoublyLinked

namespace FundStore

/-- `create_waiting` -/
def createWaiting (s : FundStore) (currentBlNonce : UInt64) (userId balance : ℕ) : FundStore :=
  s.increaseFundBalance userId (.waiting currentBlNonce) balance

/-- `liquidate_all_withdraw_only` -/
def liquidateAllWithdrawOnly (s : FundStore) (userId : ℕ) (interrupt : ℕ → Bool) (fuel : ℕ) :
    Exec (FundStore × ℕ) :=
  s.destroyAllForUser userId .withdrawOnly interrupt fuel

/-- `swap_user_active_to_unstaked`: returns the storage and what is left of `amount`. -/
def swapUserActiveToUnstaked (s : FundStore) (currentBlNonce : UInt64) (unstakeUserId amount : ℕ)
    (fuel : ℕ) : Exec (FundStore × ℕ) := do
  let (s, rest, _) ← s.splitConvertMaxByUser (some amount) unstakeUserId .active .forwards
    (fun _ => some (.unStaked currentBlNonce)) (fun _ => false) fuel
  return (s, rest.getD 0)

/-- `swap_waiting_to_active`: returns the storage, what is left of `remaining` and the affected
users. -/
def swapWaitingToActive (s : FundStore) (remaining : ℕ) (interrupt : ℕ → Bool) :
    Exec (FundStore × ℕ × List ℕ) := do
  let (s, _, rest, affectedUsers) ← s.splitConvertMaxByType () (some remaining) .waiting .forwards
    (pureFilter fun _ => some .active) interrupt false
  return (s, rest.getD 0, affectedUsers)

/-- `swap_user_waiting_to_withdraw_only` -/
def swapUserWaitingToWithdrawOnly (s : FundStore) (userId remaining : ℕ) (fuel : ℕ) :
    Exec (FundStore × ℕ) := do
  let (s, rest, _) ← s.splitConvertMaxByUser (some remaining) userId .waiting .backwards
    (fun _ => some .withdrawOnly) (fun _ => false) fuel
  return (s, rest.getD 0)

/-- The filter of `swap_dust`. -/
def dustFilter {σ : Type} (dustLimit : ℕ)
    (filterTransform : FundStore → σ → FundItem → Exec (Option FundDescription × σ)) :
    FundStore → σ → FundItem → Exec (Option FundDescription × σ) :=
  fun s closure fundItem =>
    if fundItem.balance < dustLimit then filterTransform s closure fundItem
    else .ok (none, closure)

/-- `swap_dust`: returns the storage, the closure's variables and the id to continue from. -/
def swapDust {σ : Type} (s : FundStore) (closure : σ) (currentId dustLimit : ℕ)
    (sourceType : FundType)
    (filterTransform : FundStore → σ → FundItem → Exec (Option FundDescription × σ))
    (interrupt : ℕ → Bool) (fuel : ℕ) : Exec (FundStore × σ × ℕ) :=
  s.splitConvertMaxByTypeWithCheckpoint closure currentId sourceType .backwards
    (dustFilter dustLimit filterTransform) interrupt fuel

/-- `get_affected_users_of_swap_waiting_to_active`: returns the storage, which a dry run writes
back unchanged, the affected users and what is left of `amount`. -/
def getAffectedUsersOfSwapWaitingToActive (s : FundStore) (amount : ℕ) (interrupt : ℕ → Bool) :
    Exec (FundStore × List ℕ × ℕ) := do
  let (s, _, stakeToActivate, affectedUsers) ← s.splitConvertMaxByType () (some amount) .waiting
    .forwards (pureFilter fun _ => some .active) interrupt true
  return (s, affectedUsers, stakeToActivate.getD 0)

/-- The filter of `swap_unstaked_to_deferred_payment`, which keeps the nonce. -/
def unstakedToDeferred (fundDesc : FundDescription) : Option FundDescription :=
  match fundDesc with
  | .unStaked created => some (.deferredPayment created)
  | _ => none

/-- `swap_unstaked_to_deferred_payment` -/
def swapUnstakedToDeferredPayment (s : FundStore) (remaining : ℕ) (interrupt : ℕ → Bool) :
    Exec (FundStore × ℕ) := do
  let (s, _, rest, _) ← s.splitConvertMaxByType () (some remaining) .unStaked .forwards
    (pureFilter fun fundInfo => unstakedToDeferred fundInfo.fundDesc) interrupt false
  return (s, rest.getD 0)

/-- `swap_active_to_deferred_payment` -/
def swapActiveToDeferredPayment (s : FundStore) (currentBlNonce : UInt64) (remaining : ℕ)
    (interrupt : ℕ → Bool) : Exec (FundStore × ℕ) := do
  let (s, _, rest, _) ← s.splitConvertMaxByType () (some remaining) .active .backwards
    (pureFilter fun _ => some (.deferredPayment currentBlNonce)) interrupt false
  return (s, rest.getD 0)

/-- The filter of `swap_eligible_deferred_to_withdraw`. The sum of nonces is the wrapping one of
`u64`. -/
def eligibleDeferredToWithdraw (currentBlNonce nBlocksBeforeClaim : UInt64)
    (fundDesc : FundDescription) : Option FundDescription :=
  match fundDesc with
  | .deferredPayment created =>
      if created + nBlocksBeforeClaim ≤ currentBlNonce then some .withdrawOnly else none
  | _ => none

/-- `swap_eligible_deferred_to_withdraw`: returns the storage and the total. -/
def swapEligibleDeferredToWithdraw (s : FundStore) (currentBlNonce : UInt64) (userId : ℕ)
    (nBlocksBeforeClaim : UInt64) (interrupt : ℕ → Bool) (fuel : ℕ) : Exec (FundStore × ℕ) := do
  let (s, _, total) ← s.splitConvertMaxByUser none userId .deferredPayment .forwards
    (eligibleDeferredToWithdraw currentBlNonce nBlocksBeforeClaim) interrupt fuel
  return (s, total)

/-! ### One specification for each loop -/

variable {intact : FundType → Prop} {s s' : FundStore} {lay : Layout} {src dst : FundType}
  {direction : SwapDirection} {interrupt : ℕ → Bool} {u : ℕ}

/-- The store is linked up to the type lists that `intact` leaves out, and the lists by user keep
the order of the lists by type. -/
def Sound (intact : FundType → Prop) (s : FundStore) : Prop :=
  ∃ lay, Linked intact s lay ∧ Coherent s lay

/-- A swap from `src` to `dst` of `amount` in total, `moved u` of it of the user `u`, which touches
only the users of `users`. -/
structure Swapped (intact : FundType → Prop) (s s' : FundStore) (src dst : FundType)
    (g : FundDescription → Option FundDescription) (users : ℕ → Prop) (moved : ℕ → ℕ)
    (amount : ℕ) : Prop where
  sound : Sound intact s'
  evolves : Evolves s s'
  relabelled : Relabelled (Via users src g) s s'
  shift : Shift s s' src dst moved amount
  moved_eq_zero : ∀ v, ¬ users v → moved v = 0

/-- The panic of the loops by type, which have to be interrupted in time. -/
def IsCapacity (interrupt : ℕ → Bool) (e : Panic) : Prop :=
  e = .scPanic "affected user capacity exceeded" ∧ ∀ k ≤ maxAffectedUsers, interrupt k = false

/-- The specification of a swap by type: what is left of the request, what was moved, and that a
swap that is not interrupted at once, or not at all, gets somewhere. -/
structure SwapSpec (intact : FundType → Prop) (s : FundStore) (src dst : FundType)
    (g : FundDescription → Option FundDescription) (users : ℕ → Prop) (requested : ℕ)
    (interrupt : ℕ → Bool) (s' : FundStore) (rest : ℕ) (moved : ℕ → ℕ) (amount : ℕ) : Prop where
  swapped : Swapped intact s s' src dst g users moved amount
  rest_add : rest + amount = requested
  exhausted : (∀ k, interrupt k = false) → rest = 0 ∨ s'.typeTotal src = 0
  progress : interrupt 0 = false → 0 < requested → 0 < s.typeTotal src → 0 < amount

/-- What a drain through an accepting filter does to the totals. -/
theorem swapped_of_drains {lay' : Layout} {sel : ℕ → Bool}
    {g : FundDescription → Option FundDescription} {requested : Option ℕ}
    (h : Linked intact s lay) (hco : Coherent s lay)
    (hg : ∀ d d', d.fundType = src → g d = some d' → d'.fundType = dst) (hne : dst ≠ src)
    (hev : Evolves s s') (hrel : Relabelled (Via (fun _ => True) src g) s s')
    (hd : Drains intact src direction s lay
      (drain sel (fun e => g e.fundDesc) interrupt 0 requested (direction.walk (lay.queue s src)))
      s' lay')
    {users : ℕ → Prop} (husers : ∀ v, sel v = true →
      v ∈ (drain sel (fun e => g e.fundDesc) interrupt 0 requested
        (direction.walk (lay.queue s src))).visitedUsers → users v) :
    Swapped intact s s' src dst g users
      (fun v => Entry.total (fun w => w = v)
        (drain sel (fun e => g e.fundDesc) interrupt 0 requested
          (direction.walk (lay.queue s src))).extracted)
      (Entry.total (fun _ => true)
        (drain sel (fun e => g e.fundDesc) interrupt 0 requested
          (direction.walk (lay.queue s src))).extracted) := by
  have hshift := hd.shift h hco hne (fun e he => by
    obtain ⟨-, -, e', he', hfe⟩ := drain_extracted e he
    refine hg e'.fundDesc e.fundDesc ?_ hfe
    rw [direction.mem_walk] at he'
    obtain ⟨id, hid, rfl⟩ := List.mem_map.mp he'
    exact h.fundType_eq hid) fun p => by rw [drain_total, Entry.total_walk]
  have hzero : ∀ v, ¬ users v → Entry.total (fun w => w = v) (drain sel (fun e => g e.fundDesc)
      interrupt 0 requested (direction.walk (lay.queue s src))).extracted = 0 := by
    intro v hv
    refine Entry.total_eq_zero fun e he => ?_
    obtain ⟨hsel, hvis, -⟩ := drain_extracted e he
    rw [decide_eq_false_iff_not]
    rintro rfl
    exact hv (husers _ hsel hvis)
  refine ⟨⟨lay', hd.linked, hd.coherent⟩, hev, ?_, hshift, hzero⟩
  have hchanges : ∀ u d d', Via (fun _ => True) src g u d d' →
      d.fundType = src ∧ d'.fundType ≠ src := fun u d d' hvia =>
    ⟨hvia.2.1, by rw [hg d d' hvia.2.1 hvia.2.2]; exact hne⟩
  have hkept : ∀ v, ¬ users v → (s'.holding fun w d => w = v && d.fundType = src) =
      s.holding fun w d => w = v && d.fundType = src := by
    intro v hv
    rw [← hd.linked.userTotal_eq_holding hd.coherent, ← h.userTotal_eq_holding hco]
    have := hshift.userTotal v src
    rwa [if_pos rfl, if_neg hne.symm, hzero v hv] at this
  exact (hrel.restrict hchanges hkept).mono fun u d d' hvia => ⟨hvia.1, hvia.2.2⟩

/-- A filter that accepts every item of its source, run without interruption, exhausts its
request or its source. -/
theorem exhausted_of_drains {lay' : Layout} {sel : ℕ → Bool} {f : Entry → Option FundDescription}
    {requested : Option ℕ} (h : Linked intact s lay)
    (hf : ∀ e, e.fundType = src → ∃ d, f e = some d) (hi : ∀ k, interrupt k = false)
    (hd : Drains intact src direction s lay
      (drain sel f interrupt 0 requested (direction.walk (lay.queue s src))) s' lay') :
    (drain sel f interrupt 0 requested
        (direction.walk (lay.queue s src))).optMaxAmount = some 0 ∨
      Entry.total sel (lay'.queue s' src) = 0 := by
  refine (drain_complete (fun e he => ?_) hi).imp_right fun h0 => ?_
  · rw [direction.mem_walk] at he
    obtain ⟨id, hid, rfl⟩ := List.mem_map.mp he
    exact hf _ (h.fundType_eq hid)
  · rw [hd.source, Entry.total_walk]
    exact h0

/-- A filter that accepts every item of its source moves something, unless it is interrupted at
once. -/
theorem progress_of_drain {f : Entry → Option FundDescription} {requested : ℕ}
    (h : Linked intact s lay) (hf : ∀ e, e.fundType = src → ∃ d, f e = some d)
    (hi : interrupt 0 = false) (hreq : 0 < requested) (htotal : 0 < s.typeTotal src) :
    0 < Entry.total (fun _ => true) (drain (fun _ => true) f interrupt 0 (some requested)
      (direction.walk (lay.queue s src))).extracted := by
  have hq : ∀ e ∈ direction.walk (lay.queue s src), e.fundType = src ∧ 0 < e.balance := by
    intro e he
    rw [direction.mem_walk] at he
    obtain ⟨id, hid, rfl⟩ := List.mem_map.mp he
    exact ⟨h.fundType_eq hid, h.live hid⟩
  have hne : direction.walk (lay.queue s src) ≠ [] := by
    intro hnil
    rw [h.typeTotal_eq_total, ← Entry.total_walk direction, hnil] at htotal
    exact absurd htotal (lt_irrefl 0)
  obtain ⟨e, q, heq⟩ := List.exists_cons_of_ne_nil hne
  rw [heq] at hq ⊢
  obtain ⟨he, hpos⟩ := hq e List.mem_cons_self
  obtain ⟨d, hd⟩ := hf e he
  exact drain_progress rfl hd hi (by simpa using hreq.ne') hpos

/-- **Swaps by type.** -/
theorem Linked.swapByType (h : Linked intact s lay) (hco : Coherent s lay) (hi : intact src)
    (dst : FundType) {g : FundDescription → Option FundDescription}
    (hg : ∀ d, d.fundType = src → ∃ d', g d = some d' ∧ d'.fundType = dst) (hne : dst ≠ src)
    (direction : SwapDirection) (requested : ℕ) (interrupt : ℕ → Bool) :
    Spec (s.splitConvertMaxByType () (some requested) src direction
        (pureFilter fun item => g item.fundDesc) interrupt false)
      (fun r => ∃ moved amount, SwapSpec intact s src dst g (· ∈ r.2.2.2) requested interrupt r.1
        (r.2.2.1.getD 0) moved amount)
      (IsCapacity interrupt) := by
  have hg' : ∀ d d', d.fundType = src → g d = some d' → d'.fundType = dst := by
    intro d d' hd hdd
    obtain ⟨d'', hd'', ht⟩ := hg d hd
    rw [hdd, Option.some.injEq] at hd''
    rw [hd'', ht]
  have hchanges : ∀ d d', d.fundType = src → g d = some d' → d'.fundType ≠ src :=
    fun d d' hd hdd => by rw [hg' d d' hd hdd]; exact hne
  have hrun := h.splitConvertMaxByType (f := fun e => g e.fundDesc) hco hi direction
    (some requested) interrupt fun e d he hd => hchanges e.fundDesc d he hd
  simp only [FundItem.entry_fundDesc] at hrun
  rcases le_or_gt (drain (fun _ => true) (fun e => g e.fundDesc) interrupt 0 (some requested)
    (direction.walk (lay.queue s src))).visitedUsers.length maxAffectedUsers with hle | hlt
  · obtain ⟨s', lay', hok, hd⟩ := hrun.1 hle
    obtain ⟨rest, hrest, hadd⟩ := Option.map_eq_some_iff.mp (drain_optMaxAmount (fun _ => true)
      (fun e => g e.fundDesc) interrupt 0 (some requested) (direction.walk (lay.queue s src)))
    rw [hok]
    have hev := (h.splitConvertMaxByType_evolves hco hi direction (some requested) interrupt
      fun e d he hd => hchanges e.fundDesc d he hd).of_ok hok
    have hrel := (h.splitConvertMaxByType_relabelled hco hi direction (some requested) interrupt
      hchanges).of_ok hok
    refine ⟨_, _, {
      swapped := swapped_of_drains h hco hg' hne hev hrel hd fun v _ hv =>
        mem_affectedUsersSortDedup.mpr hv
      rest_add := by
        rw [hrest]
        exact hadd
      exhausted := fun hint => ?_
      progress := progress_of_drain h fun e he => (hg e.fundDesc he).imp fun _ => And.left }⟩
    refine (exhausted_of_drains h (fun e he => (hg e.fundDesc he).imp fun _ => And.left) hint
      hd).imp (fun h0 => ?_) fun h0 => ?_
    · rw [h0]
      rfl
    · rw [hd.linked.typeTotal_eq_total]
      exact h0
  · rw [hrun.2 hlt]
    refine ⟨rfl, fun k hk => ?_⟩
    rw [← Bool.not_eq_true]
    intro hint
    rw [← Nat.zero_add k] at hint
    have := drain_visitedUsers_length_le (fun _ => true) (fun e => g e.fundDesc) (some requested)
      (direction.walk (lay.queue s src)) k hint
    omega

/-- **Swaps by user.** -/
theorem Linked.swapByUser (h : Linked intact s lay) (hco : Coherent s lay) (hi : intact src)
    (dst : FundType) {g : FundDescription → Option FundDescription}
    (hg : ∀ d d', d.fundType = src → g d = some d' → d'.fundType = dst) (hne : dst ≠ src)
    (direction : SwapDirection) (requested : Option ℕ) (u : ℕ) (interrupt : ℕ → Bool) (fuel : ℕ) :
    Spec (s.splitConvertMaxByUser requested u src direction g interrupt fuel)
      (fun r => ∃ moved amount, Swapped intact s r.1 src dst g (· = u) moved amount ∧
        moved u = amount ∧ r.2.1.map (· + amount) = requested ∧
        ((∀ d, d.fundType = src → ∃ d', g d = some d') → (∀ k, interrupt k = false) →
          r.2.1 = some 0 ∨ r.1.userTotal u src = 0))
      (· = .outOfGas) := by
  have hchanges : ∀ d d', d.fundType = src → g d = some d' → d'.fundType ≠ src :=
    fun d d' hd hdd => by rw [hg d d' hd hdd]; exact hne
  have hrun := h.splitConvertMaxByUser (g := g) hco hi direction requested u interrupt fuel
    hchanges
  simp only at hrun
  rcases le_or_gt (drain (fun v => v = u) (fun e => g e.fundDesc) interrupt 0 requested
    (direction.walk (lay.queue s src))).visitedUsers.length fuel with hle | hlt
  · obtain ⟨s', lay', hok, hd⟩ := hrun.1 hle
    rw [hok]
    have hev := (h.splitConvertMaxByUser_evolves hco hi direction requested u interrupt fuel
      hchanges).of_ok hok
    have hrel := (h.splitConvertMaxByUser_relabelled hco hi direction requested u interrupt fuel
      hchanges).of_ok hok
    refine ⟨_, _, swapped_of_drains h hco hg hne hev hrel hd fun v hv _ => by simpa using hv,
      ?_, drain_optMaxAmount _ _ _ _ _ _, fun hacc hint => ?_⟩
    · exact Entry.total_congr fun e he => by simpa using (drain_extracted e he).1
    · refine (exhausted_of_drains h (fun e he => hacc e.fundDesc he) hint hd).imp_right
        fun h0 => ?_
      rw [hd.linked.userTotal_eq_total hd.coherent]
      exact h0
  · rw [hrun.2 hlt]
    exact rfl

/-! ### The transformations -/

/-- A swap whose users do not matter. -/
theorem SwapSpec.forget {users : ℕ → Prop} {requested rest amount : ℕ} {moved : ℕ → ℕ}
    {g : FundDescription → Option FundDescription}
    (h : SwapSpec intact s src dst g users requested interrupt s' rest moved amount) :
    SwapSpec intact s src dst g (fun _ => True) requested interrupt s' rest moved amount :=
  { h with
    swapped := { h.swapped with
      relabelled := h.swapped.relabelled.mono fun _ _ _ hvia => ⟨trivial, hvia.2⟩
      moved_eq_zero := fun _ hv => absurd trivial hv } }

theorem Sound.swapWaitingToActive (h : Sound intact s) (hi : intact .waiting) (remaining : ℕ)
    (interrupt : ℕ → Bool) : Spec (s.swapWaitingToActive remaining interrupt)
      (fun r => ∃ moved amount, SwapSpec intact s .waiting .active (fun _ => some .active)
        (· ∈ r.2.2) remaining interrupt r.1 r.2.1 moved amount) (IsCapacity interrupt) := by
  obtain ⟨lay, hl, hco⟩ := h
  exact Spec.bind (hl.swapByType hco hi .active (g := fun _ => some .active)
    (fun _ _ => ⟨_, rfl, rfl⟩) (by decide) .forwards remaining interrupt) fun _ hr => hr

/-- The dry run finds the users and the rest of the swap that follows it. -/
theorem Sound.getAffectedUsersOfSwapWaitingToActive (h : Sound intact s) (hi : intact .waiting)
    (amount : ℕ) (interrupt : ℕ → Bool) :
    Spec (s.getAffectedUsersOfSwapWaitingToActive amount interrupt)
      (fun r => r.1 = s ∧ ∃ s', s.swapWaitingToActive amount interrupt = .ok (s', r.2.2, r.2.1))
      (IsCapacity interrupt) := by
  obtain ⟨lay, hl, hco⟩ := h
  have hdry := hl.splitConvertMaxByType_of_dryRun hco hi (fun _ => some .active) .forwards
    (some amount) interrupt
  have hreal := hl.splitConvertMaxByType (f := fun _ => some .active) hco hi .forwards
    (some amount) interrupt (fun e d _ hd => by cases hd; decide)
  unfold FundStore.getAffectedUsersOfSwapWaitingToActive FundStore.swapWaitingToActive
  simp only at hdry hreal
  rcases le_or_gt (drain (fun _ => true) (fun _ => some .active) interrupt 0 (some amount)
    (SwapDirection.forwards.walk (lay.queue s .waiting))).visitedUsers.length maxAffectedUsers
    with hle | hlt
  · obtain ⟨s', lay', hok, -⟩ := hreal.1 hle
    rw [hdry.1 hle, hok]
    exact ⟨rfl, s', rfl⟩
  · rw [hdry.2 hlt]
    exact (hl.swapByType hco hi .active (g := fun _ => some .active) (fun _ _ => ⟨_, rfl, rfl⟩)
      (by decide) .forwards amount interrupt).of_error (hreal.2 hlt)

theorem Sound.swapUnstakedToDeferredPayment (h : Sound intact s) (hi : intact .unStaked)
    (remaining : ℕ) (interrupt : ℕ → Bool) :
    Spec (s.swapUnstakedToDeferredPayment remaining interrupt)
      (fun r => ∃ moved amount, SwapSpec intact s .unStaked .deferredPayment unstakedToDeferred
        (fun _ => True) remaining interrupt r.1 r.2 moved amount) (IsCapacity interrupt) := by
  obtain ⟨lay, hl, hco⟩ := h
  refine Spec.bind (hl.swapByType hco hi .deferredPayment
    (g := unstakedToDeferred) (fun d hd => ?_) (by decide) .forwards remaining interrupt)
    fun _ hr => ?_
  · cases d <;> first | exact ⟨_, rfl, rfl⟩ | cases hd
  · obtain ⟨moved, amount, hsw⟩ := hr
    exact ⟨moved, amount, hsw.forget⟩

theorem Sound.swapActiveToDeferredPayment (h : Sound intact s) (hi : intact .active)
    (currentBlNonce : UInt64) (remaining : ℕ) (interrupt : ℕ → Bool) :
    Spec (s.swapActiveToDeferredPayment currentBlNonce remaining interrupt)
      (fun r => ∃ moved amount, SwapSpec intact s .active .deferredPayment
        (fun _ => some (.deferredPayment currentBlNonce)) (fun _ => True) remaining interrupt r.1
        r.2 moved amount) (IsCapacity interrupt) := by
  obtain ⟨lay, hl, hco⟩ := h
  refine Spec.bind (hl.swapByType hco hi .deferredPayment
    (g := fun _ => some (.deferredPayment currentBlNonce))
    (fun _ _ => ⟨_, rfl, rfl⟩) (by decide) .backwards remaining interrupt) fun _ hr => ?_
  obtain ⟨moved, amount, hsw⟩ := hr
  exact ⟨moved, amount, hsw.forget⟩

/-- The specification of an uninterrupted swap of one user. -/
def UserSwapSpec (intact : FundType → Prop) (s : FundStore) (src dst : FundType)
    (d : FundDescription) (u : ℕ) (requested : ℕ) (s' : FundStore) (rest : ℕ) : Prop :=
  ∃ moved amount, Swapped intact s s' src dst (fun _ => some d) (· = u) moved amount ∧
    moved u = amount ∧ rest + amount = requested ∧ (rest = 0 ∨ s'.userTotal u src = 0)

/-- A swap of one user that accepts everything. -/
theorem Linked.swapByUser_some (h : Linked intact s lay) (hco : Coherent s lay) (hi : intact src)
    (dst : FundType) (d : FundDescription) (hd : d.fundType = dst) (hne : dst ≠ src)
    (direction : SwapDirection) (amount u fuel : ℕ) :
    Spec (s.splitConvertMaxByUser (some amount) u src direction (fun _ => some d)
        (fun _ => false) fuel)
      (fun r => UserSwapSpec intact s src dst d u amount r.1 (r.2.1.getD 0)) (· = .outOfGas) := by
  refine (h.swapByUser hco hi dst (g := fun _ => some d) (fun _ _ _ he => by cases he; exact hd)
    hne direction (some amount) u (fun _ => false) fuel).imp fun r hr => ?_
  obtain ⟨moved, total, hsw, hmoved, hadd, hex⟩ := hr
  obtain ⟨rest, hrest, hsum⟩ := Option.map_eq_some_iff.mp hadd
  refine ⟨moved, total, hsw, hmoved, by rw [hrest]; exact hsum, ?_⟩
  refine (hex (fun _ _ => ⟨d, rfl⟩) fun _ => rfl).imp_left fun h0 => ?_
  rw [h0]
  rfl

theorem Sound.swapUserActiveToUnstaked (h : Sound intact s) (hi : intact .active)
    (currentBlNonce : UInt64) (u amount fuel : ℕ) :
    Spec (s.swapUserActiveToUnstaked currentBlNonce u amount fuel)
      (fun r => UserSwapSpec intact s .active .unStaked (.unStaked currentBlNonce) u amount r.1
        r.2) (· = .outOfGas) := by
  obtain ⟨lay, hl, hco⟩ := h
  exact Spec.bind (hl.swapByUser_some hco hi .unStaked (.unStaked currentBlNonce) rfl
    (by decide) .forwards amount u fuel) fun _ hr => hr

theorem Sound.swapUserWaitingToWithdrawOnly (h : Sound intact s) (hi : intact .waiting)
    (u remaining fuel : ℕ) : Spec (s.swapUserWaitingToWithdrawOnly u remaining fuel)
      (fun r => UserSwapSpec intact s .waiting .withdrawOnly .withdrawOnly u remaining r.1 r.2)
      (· = .outOfGas) := by
  obtain ⟨lay, hl, hco⟩ := h
  exact Spec.bind (hl.swapByUser_some hco hi .withdrawOnly .withdrawOnly rfl (by decide)
    .backwards remaining u fuel) fun _ hr => hr

theorem Sound.swapEligibleDeferredToWithdraw (h : Sound intact s) (hi : intact .deferredPayment)
    (currentBlNonce : UInt64) (u : ℕ) (nBlocksBeforeClaim : UInt64) (interrupt : ℕ → Bool)
    (fuel : ℕ) :
    Spec (s.swapEligibleDeferredToWithdraw currentBlNonce u nBlocksBeforeClaim interrupt fuel)
      (fun r => ∃ moved amount,
        Swapped intact s r.1 .deferredPayment .withdrawOnly
          (eligibleDeferredToWithdraw currentBlNonce nBlocksBeforeClaim) (· = u) moved amount ∧
        moved u = amount)
      (· = .outOfGas) := by
  obtain ⟨lay, hl, hco⟩ := h
  refine Spec.bind (hl.swapByUser hco hi .withdrawOnly
    (g := eligibleDeferredToWithdraw currentBlNonce nBlocksBeforeClaim) (fun d d' hd hdd => ?_)
    (by decide) .forwards none u interrupt fuel) fun _ ⟨moved, amount, hsw, hmoved, _⟩ =>
      ⟨moved, amount, hsw, hmoved⟩
  cases d <;> try cases hd
  simp only [eligibleDeferredToWithdraw] at hdd
  split_ifs at hdd
  cases hdd
  rfl

theorem Sound.createWaiting (h : Sound intact s) (currentBlNonce : UInt64) (u balance : ℕ) :
    Sound intact (s.createWaiting currentBlNonce u balance) ∧
      Evolves s (s.createWaiting currentBlNonce u balance) ∧
      (∀ t, (s.createWaiting currentBlNonce u balance).typeTotal t =
        s.typeTotal t + if t = .waiting then balance else 0) ∧
      ∀ v t, (s.createWaiting currentBlNonce u balance).userTotal v t =
        s.userTotal v t + if (v, t) = (u, .waiting) then balance else 0 := by
  obtain ⟨lay, hl, hco⟩ := h
  obtain ⟨lay', hi⟩ := hl.increaseFundBalance u (.waiting currentBlNonce) balance
  exact ⟨⟨lay', hi.linked, hi.coherent hco⟩, hl.evolves hi.linked hi.fundMaxId hi.old, hi.typeTotal,
    hi.userTotal⟩

theorem Sound.liquidateAllWithdrawOnly (h : Sound intact s) (u : ℕ) (interrupt : ℕ → Bool)
    (fuel : ℕ) : Spec (s.liquidateAllWithdrawOnly u interrupt fuel)
      (fun r => Sound intact r.1 ∧ Destroyed s r.1 u .withdrawOnly r.2) (· = .outOfGas) := by
  obtain ⟨lay, hl, hco⟩ := h
  exact (hl.destroyAllForUser hco u .withdrawOnly interrupt fuel).imp
    fun _ ⟨lay', hl', hco', hd, _⟩ => ⟨⟨lay', hl', hco'⟩, hd⟩

end FundStore

end Delegation
